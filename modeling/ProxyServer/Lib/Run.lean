import Mathlib.Data.List.Infix

namespace ProxyServer.Lib

variable {σ ι : Type*} (step : σ → ι → Option σ)

def run : σ → List ι → Option σ
  | s, [] => some s
  | s, a :: as => (step s a).bind fun t => run t as

theorem run_append (s : σ) (as bs : List ι) :
    run step s (as ++ bs) = (run step s as).bind fun t => run step t bs := by
  induction as generalizing s with
  | nil => rfl
  | cons a as ih =>
      simp only [List.cons_append, run, Option.bind_assoc]
      exact Option.bind_congr fun t _ => ih t

theorem run_concat {s t : σ} {as : List ι} (reached : run step s as = some t) (a : ι) :
    run step s (as ++ [a]) = step t a := by
  rw [run_append, reached, Option.bind_some]
  cases h : step t a <;> simp [run, h]

theorem run_invariant {invariant : σ → Prop} {s t : σ} {as : List ι}
    (keep : ∀ s a t, invariant s → step s a = some t → invariant t)
    (init : invariant s) (reached : run step s as = some t) : invariant t := by
  induction as generalizing s with
  | nil =>
      cases reached
      exact init
  | cons a as ih =>
      obtain ⟨u, first, rest⟩ := Option.bind_eq_some_iff.mp reached
      exact ih (keep s a u init first) rest

theorem foldlM_eq_run (s : σ) (as : List ι) : as.foldlM step s = run step s as := by
  induction as generalizing s with
  | nil => rfl
  | cons a as ih =>
      rw [List.foldlM_cons, run]
      exact Option.bind_congr fun t _ => ih t

theorem run_map {τ : Type*} {step' : τ → ι → Option τ} (f : σ → τ)
    (follow : ∀ s a t, step s a = some t → step' (f s) a = some (f t)) {s t : σ} {as : List ι}
    (reached : run step s as = some t) : run step' (f s) as = some (f t) := by
  induction as generalizing s with
  | nil =>
      cases reached
      rfl
  | cons a as ih =>
      obtain ⟨u, first, rest⟩ := Option.bind_eq_some_iff.mp reached
      rw [run, follow s a u first, Option.bind_some]
      exact ih rest

def EveryState (s : σ) (as : List ι) (p : σ → Prop) : Prop :=
  ∀ past, past <+: as → ∀ t, run step s past = some t → p t

def EveryStep (s : σ) (as : List ι) (c : σ → ι → Prop) : Prop :=
  ∀ past a, past ++ [a] <+: as → ∀ t, run step s past = some t → c t a

theorem everyStep_nil (s : σ) (c : σ → ι → Prop) : EveryStep step s [] c := by
  intro past a isPrefix
  simp at isPrefix

theorem everyStep_cons {s : σ} {a : ι} {as : List ι} {c : σ → ι → Prop} :
    EveryStep step s (a :: as) c ↔
      c s a ∧ ∀ t, step s a = some t → EveryStep step t as c := by
  constructor
  · intro all
    refine ⟨all [] a (by simp) s rfl, ?_⟩
    intro t taken past b isPrefix u reached
    exact all (a :: past) b (by simpa using isPrefix) u (by simp [run, taken, reached])
  · intro given past b isPrefix u reached
    obtain ⟨first, rest⟩ := given
    cases past with
    | nil =>
        obtain rfl : b = a := by simpa using isPrefix
        cases reached
        exact first
    | cons a' past =>
        obtain ⟨rfl, tail⟩ : a' = a ∧ past ++ [b] <+: as := by simpa using isPrefix
        obtain ⟨t, taken, later⟩ := Option.bind_eq_some_iff.mp reached
        exact rest t taken past b tail u later

def decideEveryStep {c : σ → ι → Prop} [∀ s a, Decidable (c s a)] :
    (s : σ) → (as : List ι) → Decidable (EveryStep step s as c)
  | s, [] => isTrue (everyStep_nil step s c)
  | s, a :: as =>
      have rest : Decidable (∀ t, step s a = some t → EveryStep step t as c) :=
        match taken : step s a with
        | none => isTrue (by simp)
        | some t =>
            have := decideEveryStep (c := c) t as
            decidable_of_iff (EveryStep step t as c) (by simp)
      decidable_of_iff (c s a ∧ ∀ t, step s a = some t → EveryStep step t as c)
        (everyStep_cons step).symm

instance {c : σ → ι → Prop} [∀ s a, Decidable (c s a)] (s : σ) (as : List ι) :
    Decidable (EveryStep step s as c) := decideEveryStep step s as

theorem everyState_of_everyStep (invariant : σ → Prop) {c : σ → ι → Prop} {s : σ} {as : List ι}
    (keep : ∀ s a t, invariant s → c s a → step s a = some t → invariant t)
    (init : invariant s) (all : EveryStep step s as c) : EveryState step s as invariant := by
  intro past
  induction past using List.reverseRecOn with
  | nil =>
      intro _ t reached
      cases reached
      exact init
  | append_singleton past a ih =>
      intro isPrefix t reached
      have before : past <+: as := (List.prefix_append past [a]).trans isPrefix
      rw [run_append] at reached
      obtain ⟨u, first, last⟩ := Option.bind_eq_some_iff.mp reached
      obtain ⟨v, taken, same⟩ := Option.bind_eq_some_iff.mp last
      cases same
      exact keep u a t (ih before u first) (all past a isPrefix u first) taken

theorem everyState_iff_everyStep (invariant : σ → Prop) {p : σ → Prop} {c : σ → ι → Prop} {s t : σ}
    {as : List ι} (keep : ∀ s a t, invariant s → step s a = some t → invariant t)
    (exact_step : ∀ s a t, invariant s → p s → step s a = some t → (p t ↔ c s a))
    (init : invariant s) (first : p s) (complete : run step s as = some t) :
    EveryState step s as p ↔ EveryStep step s as c := by
  constructor
  · intro all past a isPrefix u reached
    obtain ⟨future, rfl⟩ := isPrefix
    have before : past <+: past ++ [a] ++ future := by simp
    have reachable : invariant u := run_invariant step keep init reached
    rw [List.append_assoc, run_append, reached, Option.bind_some] at complete
    obtain ⟨v, taken, _⟩ := Option.bind_eq_some_iff.mp complete
    refine (exact_step u a v reachable (all past before u reached) taken).mp ?_
    exact all (past ++ [a]) (List.prefix_append _ _) v ((run_concat step reached a).trans taken)
  · intro all
    have both := everyState_of_everyStep step (fun s => invariant s ∧ p s) (c := c)
      (fun s a t h meets taken =>
        ⟨keep s a t h.1 taken, (exact_step s a t h.1 h.2 taken).mpr meets⟩) ⟨init, first⟩ all
    exact fun past isPrefix u reached => (both past isPrefix u reached).2

theorem everyState_iff_of_step (invariant : σ → Prop) {p : σ → Prop} {c : σ → ι → Prop} {s : σ}
    {as : List ι}
    (keep : ∀ s a t, invariant s → step s a = some t → invariant t)
    (exact_step : ∀ s a, invariant s → p s → ((∀ t, step s a = some t → p t) ↔ c s a))
    (init : invariant s) (first : p s) :
    EveryState step s as p ↔ EveryStep step s as c := by
  constructor
  · intro all past a isPrefix u reached
    have before : past <+: as := (List.prefix_append past [a]).trans isPrefix
    refine (exact_step u a (run_invariant step keep init reached)
      (all past before u reached)).mp ?_
    intro t taken
    exact all (past ++ [a]) isPrefix t ((run_concat step reached a).trans taken)
  · intro all
    have both := everyState_of_everyStep step (fun s => invariant s ∧ p s) (c := c)
      (fun s a t h meets taken =>
        ⟨keep s a t h.1 taken, (exact_step s a h.1 h.2).mpr meets t taken⟩) ⟨init, first⟩ all
    exact fun past isPrefix u reached => (both past isPrefix u reached).2

variable {τ ρ : Type*}

def trace (exec : σ → ι → Option (σ × ρ)) : σ → List ι → Option (σ × List ρ)
  | s, [] => some (s, [])
  | s, a :: as => (exec s a).bind fun first =>
      (trace exec first.1 as).map fun rest => (rest.1, first.2 :: rest.2)

theorem trace_append {exec : σ → ι → Option (σ × ρ)} {s t : σ} {as : List ι} {xs : List ρ}
    (first : trace exec s as = some (t, xs)) (bs : List ι) :
    trace exec s (as ++ bs) = (trace exec t bs).map fun rest => (rest.1, xs ++ rest.2) := by
  induction as generalizing s xs with
  | nil =>
      cases first
      simp
  | cons a as ih =>
      obtain ⟨next, taken, later⟩ := Option.bind_eq_some_iff.mp first
      obtain ⟨rest, ran, same⟩ := Option.map_eq_some_iff.mp later
      cases same
      simp [trace, taken, ih ran, Function.comp_def]

theorem trace_simulates {exec : σ → ι → Option (σ × ρ)} {exec' : τ → ι → Option (τ × ρ)}
    {related : σ → τ → Prop} {c : τ → ι → Prop}
    (follow : ∀ s t a, related s t → c t a → ∃ s' t' answer,
      exec s a = some (s', answer) ∧ exec' t a = some (t', answer) ∧ related s' t')
    {s : σ} {t : τ} {as : List ι} (first : related s t)
    (all : EveryStep (fun t a => (exec' t a).map Prod.fst) t as c) :
    ∃ s' t' answers,
      trace exec s as = some (s', answers) ∧ trace exec' t as = some (t', answers) ∧
      related s' t' := by
  induction as generalizing s t with
  | nil => exact ⟨s, t, [], rfl, rfl, first⟩
  | cons a as ih =>
      obtain ⟨meets, later⟩ := (everyStep_cons _).mp all
      obtain ⟨s₁, t₁, answer, left, right, next⟩ := follow s t a first meets
      obtain ⟨s', t', answers, leftRest, rightRest, last⟩ := ih next (later t₁ (by simp [right]))
      exact ⟨s', t', answer :: answers, by simp [trace, left, leftRest],
        by simp [trace, right, rightRest], last⟩

end ProxyServer.Lib
