/-!
# Computations that may fail

What is known of the parts of a computation once the whole has succeeded, and which part has failed
once the whole has.
-/

namespace CycleTable

variable {ε ε' α β : Type}

theorem bind_eq_ok_iff {first : Except ε α} {next : α → Except ε β} {result : β} :
    (first >>= next) = .ok result ↔
      ∃ value, first = .ok value ∧ next value = .ok result := by
  cases first with
  | error fault => simp [bind, Except.bind]
  | ok value => simp [bind, Except.bind]

theorem bind_eq_error_iff {first : Except ε α} {next : α → Except ε β} {fault : ε} :
    (first >>= next) = .error fault ↔
      first = .error fault ∨ ∃ value, first = .ok value ∧ next value = .error fault := by
  cases first with
  | error other => simp [bind, Except.bind]
  | ok value => simp [bind, Except.bind]

theorem mapError_eq_ok_iff {f : ε → ε'} {outcome : Except ε α} {result : α} :
    outcome.mapError f = .ok result ↔ outcome = .ok result := by
  cases outcome with
  | error fault =>
      show Except.error (f fault) = Except.ok result ↔ Except.error fault = Except.ok result
      simp
  | ok value =>
      show Except.ok value = Except.ok result ↔ Except.ok value = Except.ok result
      simp

theorem mapError_eq_error_iff {f : ε → ε'} {outcome : Except ε α} {fault : ε'} :
    outcome.mapError f = .error fault ↔ ∃ cause, outcome = .error cause ∧ f cause = fault := by
  cases outcome with
  | error cause =>
      show Except.error (f cause) = Except.error fault ↔ _
      simp
  | ok value =>
      show Except.ok value = Except.error fault ↔ _
      simp

def FailsWith (P : ε → Prop) (outcome : Except ε α) : Prop :=
  ∀ fault, outcome = .error fault → P fault

theorem failsWith_ok (P : ε → Prop) (value : α) : FailsWith P (.ok value : Except ε α) := by
  intro fault h
  cases h

theorem failsWith_error {P : ε → Prop} {fault : ε} (h : P fault) :
    FailsWith P (.error fault : Except ε α) := by
  rintro other ⟨⟩
  exact h

theorem FailsWith.bind {P : ε → Prop} {first : Except ε α} {next : α → Except ε β}
    (h : FailsWith P first) (hnext : ∀ value, FailsWith P (next value)) :
    FailsWith P (first >>= next) := by
  intro fault hfault
  rcases bind_eq_error_iff.mp hfault with hfirst | ⟨value, _, hrest⟩
  · exact h fault hfirst
  · exact hnext value fault hrest

theorem mapM_eq_ok_iff {f : α → Except ε β} {source : β → α} {P : β → Prop}
    (hstep : ∀ x y, f x = .ok y ↔ source y = x ∧ P y) {xs : List α} {ys : List β} :
    xs.mapM f = .ok ys ↔ ys.map source = xs ∧ ∀ y ∈ ys, P y := by
  induction xs generalizing ys with
  | nil =>
      rw [List.mapM_nil]
      constructor
      · rintro ⟨⟩
        simp
      · rintro ⟨hmap, -⟩
        rw [List.map_eq_nil_iff.mp hmap]
        rfl
  | cons x xs ih =>
      simp only [List.mapM_cons, bind_eq_ok_iff]
      constructor
      · rintro ⟨y, hy, rest, hrest, ⟨⟩⟩
        obtain ⟨rfl, hP⟩ := (hstep x y).mp hy
        obtain ⟨rfl, hall⟩ := ih.mp hrest
        exact ⟨List.map_cons, List.forall_mem_cons.mpr ⟨hP, hall⟩⟩
      · rintro ⟨hmap, hall⟩
        obtain ⟨y, rest, rfl, rfl, hrest⟩ := List.map_eq_cons_iff.mp hmap
        rw [List.forall_mem_cons] at hall
        exact ⟨y, (hstep _ y).mpr ⟨rfl, hall.1⟩, rest, ih.mpr ⟨hrest, hall.2⟩, rfl⟩

theorem mapM_eq_error_iff {f : α → Except ε β} {xs : List α} {fault : ε} :
    xs.mapM f = .error fault ↔
      ∃ (place : Nat) (x : α), xs[place]? = some x ∧ f x = .error fault ∧
        ∀ (earlier : Nat) (y : α), earlier < place → xs[earlier]? = some y → ∃ z, f y = .ok z := by
  induction xs with
  | nil => simp [pure, Except.pure]
  | cons x xs ih =>
      simp only [List.mapM_cons, bind_eq_error_iff]
      constructor
      · intro h
        rcases h with hx | ⟨z, hz, hrest⟩
        · exact ⟨0, x, rfl, hx, fun _ _ hlt => absurd hlt (Nat.not_lt_zero _)⟩
        · rcases hrest with hrest | ⟨_, _, hpure⟩
          · rcases ih.mp hrest with ⟨place, w, hw, hfault, hbefore⟩
            refine ⟨place + 1, w, hw, hfault, ?_⟩
            intro earlier y hlt hy
            cases earlier with
            | zero =>
                cases hy
                exact ⟨z, hz⟩
            | succ earlier => exact hbefore earlier y (Nat.lt_of_succ_lt_succ hlt) hy
          · cases hpure
      · intro h
        rcases h with ⟨place, w, hw, hfault, hbefore⟩
        cases place with
        | zero =>
            cases hw
            exact Or.inl hfault
        | succ place =>
            rcases hbefore 0 x (Nat.succ_pos place) rfl with ⟨z, hz⟩
            refine Or.inr ⟨z, hz, Or.inl (ih.mpr ⟨place, w, hw, hfault, ?_⟩)⟩
            intro earlier y hlt hy
            exact hbefore (earlier + 1) y (Nat.succ_lt_succ hlt) hy

theorem foldlM_eq_error_iff {f : β → α → Except ε β} {start : β} {xs : List α} {fault : ε} :
    xs.foldlM f start = .error fault ↔
      ∃ (place : Nat) (x : α) (state : β), xs[place]? = some x ∧
        (xs.take place).foldlM f start = .ok state ∧ f state x = .error fault := by
  induction xs generalizing start with
  | nil => simp [pure, Except.pure]
  | cons x xs ih =>
      simp only [List.foldlM_cons, bind_eq_error_iff, ih]
      constructor
      · intro h
        rcases h with hx | ⟨next, hnext, place, y, state, hy, hstate, hfault⟩
        · exact ⟨0, x, start, rfl, rfl, hx⟩
        · refine ⟨place + 1, y, state, hy, ?_, hfault⟩
          rw [List.take_succ_cons, List.foldlM_cons, bind_eq_ok_iff]
          exact ⟨next, hnext, hstate⟩
      · intro h
        obtain ⟨place, y, state, hy, hstate, hfault⟩ := h
        cases place with
        | zero =>
            cases hy
            cases hstate
            exact Or.inl hfault
        | succ place =>
            rw [List.take_succ_cons, List.foldlM_cons, bind_eq_ok_iff] at hstate
            obtain ⟨next, hnext, hstate⟩ := hstate
            exact Or.inr ⟨next, hnext, place, y, state, hy, hstate, hfault⟩

end CycleTable
