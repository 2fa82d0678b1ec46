import Mathlib.Logic.Function.Basic
import ProxyServer.Lib.Ownership

/-!
# Slots

Where each resource has a slot that it stands in, and a slot has one at a time, what is live is told
by a map. The resource in a slot has a mark, which tells it from those that stood there before.
-/

namespace ProxyServer.Lib

variable {σ γ : Type*}

def Fills (live : Finset (σ × γ)) (slots : σ → Option γ) : Prop :=
  ∀ s g, (s, g) ∈ live ↔ slots s = some g

theorem fills_empty : Fills (∅ : Finset (σ × γ)) fun _ => none := fun s g => by simp

theorem Fills.unique {m : σ → Option γ} {a b : Finset (σ × γ)} (first : Fills a m)
    (second : Fills b m) : a = b := by
  ext ⟨s, g⟩
  rw [first s g, second s g]

variable [DecidableEq σ] [DecidableEq γ]

def Touch.move (m : σ → Option γ) : Touch (σ × γ) → Option (σ → Option γ)
  | .acquire (s, g) => if m s = none then some (Function.update m s (some g)) else none
  | .use (s, g) => if m s = some g then some m else none
  | .release (s, g) => if m s = some g then some (Function.update m s none) else none

def Moves (m : σ → Option γ) (t : List (Touch (σ × γ))) (m' : σ → Option γ) : Prop :=
  run Touch.move m t = some m'

def drop (s : σ) : Option γ → List (Touch (σ × γ))
  | none => []
  | some g => [.release (s, g)]

variable {m m' m'' : σ → Option γ} {t u : List (Touch (σ × γ))} {s : σ} {g : γ}
  {live : Finset (σ × γ)}

theorem Fills.step (fills : Fills live m) {x : Touch (σ × γ)} (moved : x.move m = some m') :
    ∃ live', x.step live = some live' ∧ Fills live' m' := by
  cases x with
  | acquire r =>
      obtain ⟨s, g⟩ := r
      rw [Touch.move, Option.ite_none_right_eq_some] at moved
      obtain ⟨free, rfl⟩ := by simpa using moved
      refine ⟨_, if_neg (by simp [fills s g, free]), fun s' g' => ?_⟩
      by_cases same : s' = s
      · subst same
        simp [fills s' g', free, eq_comm]
      · simp [same, fills s' g']
  | use r =>
      obtain ⟨s, g⟩ := r
      rw [Touch.move, Option.ite_none_right_eq_some] at moved
      obtain ⟨there, rfl⟩ := by simpa using moved
      exact ⟨live, if_pos ((fills s g).mpr there), fills⟩
  | release r =>
      obtain ⟨s, g⟩ := r
      rw [Touch.move, Option.ite_none_right_eq_some] at moved
      obtain ⟨there, rfl⟩ := by simpa using moved
      refine ⟨_, if_pos ((fills s g).mpr there), fun s' g' => ?_⟩
      by_cases same : s' = s
      · subst same
        simp [fills s' g', there, eq_comm]
      · simp [same, fills s' g']

theorem Fills.owns (fills : Fills live m) (moves : Moves m t m') :
    ∃ live', Owns live t live' ∧ Fills live' m' := by
  induction t generalizing m live with
  | nil =>
      cases moves
      exact ⟨live, owns_nil live, fills⟩
  | cons x t ih =>
      obtain ⟨n, first, rest⟩ := Option.bind_eq_some_iff.mp moves
      obtain ⟨live', taken, next⟩ := fills.step first
      obtain ⟨live'', owns, last⟩ := ih next rest
      exact ⟨live'', owns_cons.mpr ⟨live', taken, owns⟩, last⟩

theorem Fills.uses_iff (fills : Fills live m) {rs : List (σ × γ)} :
    (∃ live', Owns live (rs.map .use) live') ↔ ∀ r ∈ rs, m r.1 = some r.2 := by
  constructor
  · rintro ⟨live', owns⟩
    induction rs with
    | nil => simp
    | cons r rs ih =>
        obtain ⟨next, taken, rest⟩ := owns_cons.mp owns
        rw [Touch.step, Option.ite_none_right_eq_some, Option.some.injEq] at taken
        obtain ⟨inside, rfl⟩ := taken
        exact List.forall_mem_cons.mpr ⟨(fills r.1 r.2).mp inside, ih rest⟩
  · exact fun there => ⟨live, owns_uses fun r member => (fills r.1 r.2).mpr (there r member)⟩

theorem moves_nil (m : σ → Option γ) : Moves m [] m := rfl

theorem Moves.append (first : Moves m t m') (second : Moves m' u m'') : Moves m (t ++ u) m'' := by
  rw [Moves, run_append, first, Option.bind_some]
  exact second

theorem Moves.cons {x : Touch (σ × γ)} (first : Moves m [x] m') (second : Moves m' t m'') :
    Moves m (x :: t) m'' := first.append second

theorem Moves.to (moves : Moves m t m') (same : m' = m'') : Moves m t m'' := same ▸ moves

theorem moves_use (there : m s = some g) : Moves m [.use (s, g)] m := by
  simp [Moves, run, Touch.move, there]

theorem moves_acquire (free : m s = none) (g : γ) :
    Moves m [.acquire (s, g)] (Function.update m s (some g)) := by
  simp [Moves, run, Touch.move, free]

theorem moves_release (there : m s = some g) :
    Moves m [.release (s, g)] (Function.update m s none) := by
  simp [Moves, run, Touch.move, there]

theorem moves_drop (m : σ → Option γ) (s : σ) :
    Moves m (drop s (m s)) (Function.update m s none) := by
  cases there : m s with
  | none =>
      have same : Function.update m s none = m := by rw [← there, Function.update_eq_self]
      exact same.symm ▸ moves_nil m
  | some g => exact moves_release there

theorem moves_replace (m : σ → Option γ) (s : σ) (g : γ) :
    Moves m (drop s (m s) ++ [.acquire (s, g)]) (Function.update m s (some g)) := by
  have acquired := moves_acquire (Function.update_self s none m) g
  rw [Function.update_idem] at acquired
  exact (moves_drop m s).append acquired

theorem moves_drops (m : σ → Option γ) {slots : List σ} (once : slots.Nodup) :
    Moves m (slots.flatMap fun s => drop s (m s)) fun s => if s ∈ slots then none else m s := by
  induction slots generalizing m with
  | nil => exact (moves_nil m).to (by simp)
  | cons s slots ih =>
      obtain ⟨absent, once⟩ := List.nodup_cons.mp once
      have other : ∀ s' ∈ slots, drop s' (Function.update m s none s') = drop s' (m s') :=
        fun s' member => by rw [Function.update_of_ne (ne_of_mem_of_not_mem member absent)]
      have rest := ih (Function.update m s none) once
      rw [List.flatMap_congr other] at rest
      refine ((moves_drop m s).append rest).to ?_
      funext s'
      by_cases same : s' = s
      · simp [same]
      · simp [same]

end ProxyServer.Lib
