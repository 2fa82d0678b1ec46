import ProxyServer.Lib.Interleave
import ProxyServer.Lib.Slots

namespace ProxyServer.Lib

variable {ι σ γ : Type*}

def Touch.within (i : ι) : Touch (σ × γ) → Touch ((ι × σ) × γ)
  | .acquire (s, g) => .acquire ((i, s), g)
  | .use (s, g) => .use ((i, s), g)
  | .release (s, g) => .release ((i, s), g)

variable [DecidableEq ι] [DecidableEq σ]

theorem update_pair (m : ι × σ → Option γ) (i j : ι) (s : σ) (g : Option γ) :
    (fun s' => Function.update m (i, s) g (j, s')) =
      if j = i then Function.update (fun s' => m (i, s')) s g else fun s' => m (j, s') := by
  split
  · rename_i same
    subst same
    funext s'
    simp [Function.update_apply]
  · rename_i other
    funext s'
    simp [other]

variable [DecidableEq γ]

def owners (m : ι → σ → Option γ) (program : ι → List (Touch (σ × γ))) :
    Threads ι (Touch ((ι × σ) × γ)) (ι × σ → Option γ) :=
  .start (fun s => m s.1 s.2) fun i => (program i).map (.within i)

def ownersStep :
    Threads ι (Touch ((ι × σ) × γ)) (ι × σ → Option γ) → ι →
      Option (Threads ι (Touch ((ι × σ) × γ)) (ι × σ → Option γ)) :=
  Threads.step fun touch m => touch.move m

theorem Touch.move_within (m : ι × σ → Option γ) (i : ι) (x : Touch (σ × γ)) :
    (x.move fun s => m (i, s)).isSome = ((x.within i).move m).isSome ∧
      ∀ m', (x.within i).move m = some m' →
        (x.move fun s => m (i, s)) = some (fun s => m' (i, s)) ∧
          ∀ j ≠ i, (fun s => m' (j, s)) = fun s => m (j, s) := by
  cases x <;>
    · simp only [Touch.within, Touch.move]
      split
      · refine ⟨rfl, ?_⟩
        rintro m' ⟨⟩
        simp +contextual [update_pair]
      · simp

structure OwnersRun (m : ι → σ → Option γ) (program : ι → List (Touch (σ × γ)))
    (t : Threads ι (Touch ((ι × σ) × γ)) (ι × σ → Option γ)) : Prop where
  moves : ∀ i, ∃ past rest, program i = past ++ rest ∧ t.rest i = rest.map (.within i) ∧
    Moves (m i) past fun s => t.shared (i, s)

variable {m m' : ι → σ → Option γ} {program : ι → List (Touch (σ × γ))}
  {t u : Threads ι (Touch ((ι × σ) × γ)) (ι × σ → Option γ)}

omit [DecidableEq ι] in
theorem OwnersRun.start (m : ι → σ → Option γ) (program : ι → List (Touch (σ × γ))) :
    OwnersRun m program (owners m program) :=
  ⟨fun i => ⟨[], program i, rfl, rfl, moves_nil _⟩⟩

theorem OwnersRun.step (runs : OwnersRun m program t) {i : ι} (taken : ownersStep t i = some u) :
    OwnersRun m program u := by
  obtain ⟨x, xs, shared, next, moved, rfl⟩ := Threads.step_cases _ taken
  obtain ⟨past, rest, whole, left, moves⟩ := runs.moves i
  rw [next] at left
  cases rest with
  | nil => cases left
  | cons y rest =>
      rw [List.map_cons, List.cons.injEq] at left
      obtain ⟨rfl, rfl⟩ := left
      obtain ⟨own, others⟩ := (y.move_within t.shared i).2 shared moved
      refine ⟨fun j => ?_⟩
      by_cases same : j = i
      · subst same
        refine ⟨past ++ [y], rest, by rw [whole, List.append_assoc]; rfl,
          Function.update_self .., ?_⟩
        rw [Moves, run_concat _ moves, own]
      · obtain ⟨past, rest, whole, left, moves⟩ := runs.moves j
        refine ⟨past, rest, whole, (Function.update_of_ne same ..).trans left, ?_⟩
        rw [Moves, others j same]
        exact moves

omit [DecidableEq ι] in
theorem OwnersRun.ended (runs : OwnersRun m program t) {i : ι} (done : t.rest i = [])
    {m' : σ → Option γ} (moves : Moves (m i) (program i) m') :
    (fun s => t.shared (i, s)) = m' := by
  obtain ⟨past, rest, whole, left, moved⟩ := runs.moves i
  rw [done] at left
  obtain rfl : rest = [] := List.map_eq_nil_iff.mp left.symm
  rw [List.append_nil] at whole
  rw [whole, Moves, moved] at moves
  exact Option.some.inj moves

theorem OwnersRun.goes_on (runs : OwnersRun m program t) {i : ι} (more : t.rest i ≠ [])
    {m' : σ → Option γ} (moves : Moves (m i) (program i) m') : (ownersStep t i).isSome := by
  obtain ⟨past, rest, whole, left, moved⟩ := runs.moves i
  cases rest with
  | nil => exact absurd left more
  | cons y rest =>
      rw [whole, Moves, run_append, moved, Option.bind_some] at moves
      obtain ⟨next, taken, -⟩ := Option.bind_eq_some_iff.mp moves
      have able : ((y.within i).move t.shared).isSome := by
        rw [← (y.move_within t.shared i).1, taken]
        rfl
      obtain ⟨shared, carried⟩ := Option.isSome_iff_exists.mp able
      simp [ownersStep, Threads.step, left, carried]

theorem owners_run {left : ι → σ → Option γ} (each : ∀ i, Moves (m i) (program i) (left i))
    {schedule : List ι} (reached : run ownersStep (owners m program) schedule = some t) (i : ι) :
    (t.rest i ≠ [] → (ownersStep t i).isSome) ∧
      (t.rest i = [] → (fun s => t.shared (i, s)) = left i) := by
  have runs : OwnersRun m program t :=
    run_invariant _ (fun _ _ _ runs taken => runs.step taken) (.start m program) reached
  exact ⟨fun more => runs.goes_on more (each i), fun done => runs.ended done (each i)⟩

end ProxyServer.Lib
