import Mathlib.Data.List.Forall2
import Protoscribe.Failure

set_option autoImplicit false

/-! # Checked computations

Everything that may fail runs in `Except Failure`. The lemmas here take such computations apart:
a sequence gives a result exactly when each step does (`bind_eq_ok`), and a list is processed
exactly when each of its elements is (`mapM_eq_ok`, `mapM_succeeds`).
-/

namespace Protoscribe.Checked

variable {α β : Type}

/-- The computation gives a result. -/
def Succeeds (x : Except Failure α) : Prop := ∃ a, x = .ok a

@[simp] theorem succeeds_ok (a : α) : Succeeds (.ok a) := ⟨a, rfl⟩

@[simp] theorem succeeds_pure (a : α) : Succeeds (pure a) := ⟨a, rfl⟩

@[simp] theorem not_succeeds_error (failure : Failure) :
    ¬ Succeeds (.error failure : Except Failure α) := by
  rintro ⟨a, h⟩
  cases h

theorem bind_eq_ok {x : Except Failure α} {f : α → Except Failure β} {b : β} :
    x >>= f = .ok b ↔ ∃ a, x = .ok a ∧ f a = .ok b := by
  cases x with
  | error failure => simp [bind, Except.bind]
  | ok a => simp [bind, Except.bind]

theorem bind_succeeds {x : Except Failure α} {f : α → Except Failure β} :
    Succeeds (x >>= f) ↔ ∃ a, x = .ok a ∧ Succeeds (f a) := by
  constructor
  · rintro ⟨b, h⟩
    obtain ⟨a, ha, hb⟩ := bind_eq_ok.1 h
    exact ⟨a, ha, b, hb⟩
  · rintro ⟨a, ha, b, hb⟩
    exact ⟨b, bind_eq_ok.2 ⟨a, ha, hb⟩⟩

/-- A step whose continuation always succeeds decides alone. -/
theorem bind_succeeds_of_total {x : Except Failure α} {f : α → Except Failure β}
    (h : ∀ a, Succeeds (f a)) : Succeeds (x >>= f) ↔ Succeeds x := by
  rw [bind_succeeds]
  exact ⟨fun ⟨a, ha, _⟩ => ⟨a, ha⟩, fun ⟨a, ha⟩ => ⟨a, ha, h a⟩⟩

@[simp] theorem map_succeeds {x : Except Failure α} {f : α → β} :
    Succeeds (f <$> x) ↔ Succeeds x := by
  cases x <;> simp [Functor.map, Except.map]

@[simp] theorem pure_eq_ok {a b : α} : (pure a : Except Failure α) = .ok b ↔ a = b := by
  simp [pure, Except.pure]

/-- Processing a list is processing its elements one by one. -/
theorem mapM_eq_ok {f : α → Except Failure β} {xs : List α} {ys : List β} :
    xs.mapM f = .ok ys ↔ List.Forall₂ (fun x y => f x = .ok y) xs ys := by
  induction xs generalizing ys with
  | nil => cases ys <;> simp [pure, Except.pure]
  | cons x xs ih =>
      rw [List.mapM_cons, bind_eq_ok, List.forall₂_cons_left_iff]
      constructor
      · rintro ⟨y, hy, h⟩
        obtain ⟨rest, hrest, h⟩ := bind_eq_ok.1 h
        exact ⟨y, rest, hy, ih.1 hrest, (pure_eq_ok.1 h).symm⟩
      · rintro ⟨y, rest, hy, hrest, rfl⟩
        exact ⟨y, hy, bind_eq_ok.2 ⟨rest, ih.2 hrest, rfl⟩⟩

/-- Each input of a processed list has its output. -/
theorem exists_output {f : α → Except Failure β} {xs : List α} {ys : List β}
    (h : xs.mapM f = .ok ys) {x : α} (hx : x ∈ xs) : ∃ y ∈ ys, f x = .ok y := by
  have hAll := mapM_eq_ok.1 h
  clear h
  induction hAll with
  | nil => cases hx
  | cons hy _ ih =>
      rcases List.mem_cons.1 hx with rfl | hx
      · exact ⟨_, List.mem_cons_self, hy⟩
      · obtain ⟨y, hMem, hy⟩ := ih hx
        exact ⟨y, List.mem_cons_of_mem _ hMem, hy⟩

/-- Each output of a processed list comes from an input. -/
theorem exists_input {f : α → Except Failure β} {xs : List α} {ys : List β}
    (h : xs.mapM f = .ok ys) {y : β} (hy : y ∈ ys) : ∃ x ∈ xs, f x = .ok y := by
  have hAll := mapM_eq_ok.1 h
  clear h
  induction hAll with
  | nil => cases hy
  | cons hx _ ih =>
      rcases List.mem_cons.1 hy with rfl | hy
      · exact ⟨_, List.mem_cons_self, hx⟩
      · obtain ⟨x, hMem, hx⟩ := ih hy
        exact ⟨x, List.mem_cons_of_mem _ hMem, hx⟩

/-- What is read off the outputs of a processed list, part by part, is what its inputs say. -/
theorem flatMap_of_mapM {γ : Type} {f : α → Except Failure β} {g : β → List γ} {k : α → List γ}
    {xs : List α} {ys : List β} (h : xs.mapM f = .ok ys)
    (hEach : ∀ x ∈ xs, ∀ y, f x = .ok y → g y = k x) : ys.flatMap g = xs.flatMap k := by
  have hAll := mapM_eq_ok.1 h
  clear h
  induction hAll with
  | nil => rfl
  | @cons x y xs ys hy _ ih =>
      obtain ⟨hFirst, hRest⟩ := List.forall_mem_cons.1 hEach
      rw [List.flatMap_cons, List.flatMap_cons, hFirst y hy, ih hRest]

theorem mapM_succeeds {f : α → Except Failure β} {xs : List α} :
    Succeeds (xs.mapM f) ↔ ∀ x ∈ xs, Succeeds (f x) := by
  induction xs with
  | nil => simp
  | cons x xs ih =>
      rw [List.mapM_cons, bind_succeeds, List.forall_mem_cons, ← ih]
      simp only [bind_succeeds_of_total fun rest => succeeds_pure (_ :: rest)]
      exact ⟨fun ⟨y, hy, h⟩ => ⟨⟨y, hy⟩, h⟩, fun ⟨⟨y, hy⟩, h⟩ => ⟨y, hy, h⟩⟩

end Protoscribe.Checked
