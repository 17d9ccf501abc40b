import Mathlib.Data.List.Forall2

/-!
# Computations that may fail

A computation of several steps gives a value if every step does.  A pass over a list succeeds if
every step of it does, and its results belong to the members one by one.
-/

namespace LearningStore

/-- A computation that gives a value. -/
def Succeeds {ε α : Type} (x : Except ε α) : Prop :=
  ∃ a, x = .ok a

namespace Succeeds

variable {ε α β : Type}

theorem ok (a : α) : Succeeds (.ok a : Except ε α) :=
  ⟨a, rfl⟩

theorem map {x : Except ε α} (h : Succeeds x) (f : α → β) : Succeeds (x.map f) := by
  obtain ⟨a, rfl⟩ := h
  exact ok (f a)

theorem bind {x : Except ε α} {f : α → Except ε β} (h : Succeeds x)
    (next : ∀ a, Succeeds (f a)) : Succeeds (x >>= f) := by
  obtain ⟨a, rfl⟩ := h
  exact next a

/-- A pass over a list succeeds if every step does. -/
theorem mapM {f : α → Except ε β} {xs : List α} (h : ∀ a ∈ xs, Succeeds (f a)) :
    Succeeds (xs.mapM f) := by
  induction xs with
  | nil => exact ok []
  | cons a rest ih =>
      rw [List.mapM_cons]
      refine (h a List.mem_cons_self).bind fun b => ?_
      exact (ih fun c inside => h c (List.mem_cons_of_mem a inside)).bind fun bs => ok (b :: bs)

end Succeeds

/-! ## Results -/

section Results

variable {ε α β γ : Type}

theorem bind_eq_ok {x : Except ε α} {f : α → Except ε β} {b : β} :
    x >>= f = .ok b ↔ ∃ a, x = .ok a ∧ f a = .ok b := by
  cases x with
  | error e => exact ⟨nofun, nofun⟩
  | ok a => exact ⟨fun h => ⟨a, rfl, h⟩, fun ⟨_, same, h⟩ => by cases same; exact h⟩

theorem map_eq_ok {x : Except ε α} {f : α → β} {b : β} :
    x.map f = .ok b ↔ ∃ a, x = .ok a ∧ f a = b := by
  cases x with
  | error e => exact ⟨nofun, nofun⟩
  | ok a => simp [Except.map]

/-- The results of a pass belong to the members of the list one by one. -/
theorem mapM_eq_ok {f : α → Except ε β} {xs : List α} {ys : List β} :
    xs.mapM f = .ok ys ↔ List.Forall₂ (fun a b => f a = .ok b) xs ys := by
  induction xs generalizing ys with
  | nil => cases ys <;> simp [pure, Except.pure]
  | cons a rest ih =>
      rw [List.mapM_cons, bind_eq_ok]
      constructor
      · rintro ⟨b, first, others⟩
        obtain ⟨bs, passed, same⟩ := bind_eq_ok.mp others
        cases same
        exact .cons first (ih.mp passed)
      · rintro (_ | ⟨first, passed⟩)
        exact ⟨_, first, bind_eq_ok.mpr ⟨_, ih.mpr passed, rfl⟩⟩

/-- What each result gives is what its member gives. -/
theorem flatMap_eq_of_mapM {f : α → Except ε β} {xs : List α} {ys : List β}
    (passed : xs.mapM f = .ok ys) {g : β → List γ} {h : α → List γ}
    (each : ∀ a ∈ xs, ∀ b, f a = .ok b → g b = h a) : ys.flatMap g = xs.flatMap h := by
  have results := mapM_eq_ok.mp passed
  clear passed
  induction results with
  | nil => rfl
  | cons first _ ih =>
      rw [List.flatMap_cons, List.flatMap_cons, each _ List.mem_cons_self _ first,
        ih fun a inside => each a (List.mem_cons_of_mem _ inside)]

/-- What holds of every result holds of all that a pass gives. -/
theorem forall_mem_of_mapM {f : α → Except ε β} {xs : List α} {ys : List β}
    (passed : xs.mapM f = .ok ys) {P : β → Prop}
    (each : ∀ a ∈ xs, ∀ b, f a = .ok b → P b) : ∀ b ∈ ys, P b := by
  have results := mapM_eq_ok.mp passed
  clear passed
  induction results with
  | nil => simp
  | cons first _ ih =>
      rw [List.forall_mem_cons]
      exact ⟨each _ List.mem_cons_self _ first,
        ih fun a inside => each a (List.mem_cons_of_mem _ inside)⟩

/-- A pass gives results that all have a property exactly if all members have another, where
each result has the one if its member has the other. -/
theorem forall_mem_iff_of_mapM {f : α → Except ε β} {xs : List α} {ys : List β}
    (passed : xs.mapM f = .ok ys) {P : β → Prop} {Q : α → Prop}
    (each : ∀ a ∈ xs, ∀ b, f a = .ok b → (P b ↔ Q a)) : (∀ b ∈ ys, P b) ↔ ∀ a ∈ xs, Q a := by
  have results := mapM_eq_ok.mp passed
  clear passed
  induction results with
  | nil => exact iff_of_true nofun nofun
  | cons first _ ih =>
      rw [List.forall_mem_cons, List.forall_mem_cons]
      exact and_congr (each _ List.mem_cons_self _ first)
        (ih fun a inside => each a (List.mem_cons_of_mem _ inside))

/-- A result of a pass is that of some member. -/
theorem mem_of_mapM {f : α → Except ε β} {xs : List α} {ys : List β}
    (passed : xs.mapM f = .ok ys) {b : β} : b ∈ ys ↔ ∃ a ∈ xs, f a = .ok b := by
  have results := mapM_eq_ok.mp passed
  clear passed
  induction results with
  | nil => simp
  | cons first _ ih =>
      simp only [List.mem_cons, ih, or_and_right, exists_or, exists_eq_left, first,
        Except.ok.injEq, eq_comm (a := b)]

/-- What belongs to a member of a list is in the other list. -/
theorem exists_right_of_forall₂ {R : α → β → Prop} {xs : List α} {ys : List β}
    (related : List.Forall₂ R xs ys) {a : α} (inside : a ∈ xs) : ∃ b ∈ ys, R a b := by
  induction related with
  | nil => cases inside
  | cons first _ ih =>
      rcases List.mem_cons.mp inside with rfl | later
      · exact ⟨_, List.mem_cons_self, first⟩
      · obtain ⟨b, member, holds⟩ := ih later
        exact ⟨b, List.mem_cons_of_mem _ member, holds⟩

theorem exists_left_of_forall₂ {R : α → β → Prop} {xs : List α} {ys : List β}
    (related : List.Forall₂ R xs ys) {b : β} (inside : b ∈ ys) : ∃ a ∈ xs, R a b :=
  exists_right_of_forall₂ related.flip inside

/-- A pass that goes part of the way and a step that goes the rest. -/
theorem mapM_eq_ok_of_factor {f : α → Except ε β} {g : α → Except ε γ} {h : γ → β}
    {xs : List α} {ys : List β} (passed : xs.mapM f = .ok ys)
    (each : ∀ a ∈ xs, ∀ b, f a = .ok b → ∃ c, g a = .ok c ∧ h c = b) :
    ∃ zs, xs.mapM g = .ok zs ∧ zs.map h = ys := by
  have results := mapM_eq_ok.mp passed
  clear passed
  induction results with
  | nil => exact ⟨[], rfl, rfl⟩
  | cons first _ ih =>
      obtain ⟨c, made, same⟩ := each _ List.mem_cons_self _ first
      obtain ⟨zs, others, tail⟩ := ih fun a inside => each a (List.mem_cons_of_mem _ inside)
      refine ⟨c :: zs, ?_, by rw [List.map_cons, same, tail]⟩
      rw [List.mapM_cons, made, others]
      rfl

/-- What each result tells is what its member tells. -/
theorem map_eq_of_mapM {f : α → Except ε β} {xs : List α} {ys : List β}
    (passed : xs.mapM f = .ok ys) {g : β → γ} {h : α → γ}
    (each : ∀ a ∈ xs, ∀ b, f a = .ok b → g b = h a) : ys.map g = xs.map h := by
  rw [List.map_eq_flatMap, List.map_eq_flatMap]
  exact flatMap_eq_of_mapM passed fun a inside b made => by rw [each a inside b made]

end Results

end LearningStore
