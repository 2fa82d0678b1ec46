import Mathlib.Algebra.Order.BigOperators.Group.Finset
import Mathlib.Algebra.Order.Ring.Int
import ProxyServer.Lib.Run

/-!
# Interleaving

Threads that each have a list of operations to carry out on a state that they share. A schedule
says whose turn it is; an operation that cannot be carried out yet is not taken.
-/

namespace ProxyServer.Lib

theorem sum_filter_of_zero {α : Type*} {weight : α → ℤ} {p : α → Bool}
    (zero : ∀ a, p a = false → weight a = 0) (as : List α) :
    ((as.filter p).map weight).sum = (as.map weight).sum := by
  induction as with
  | nil => rfl
  | cons a as ih =>
      rw [List.map_cons, List.sum_cons, ← ih]
      cases here : p a with
      | false => rw [List.filter_cons_of_neg (by simp [here]), zero a here, zero_add]
      | true => rw [List.filter_cons_of_pos here, List.map_cons, List.sum_cons]

structure Threads (ι α σ : Type*) where
  shared : σ
  past : ι → List α
  rest : ι → List α

namespace Threads

variable {ι α σ : Type*}

def start (s : σ) (program : ι → List α) : Threads ι α σ where
  shared := s
  past _ := []
  rest := program

def Runs (program : ι → List α) (t : Threads ι α σ) : Prop :=
  ∀ i, t.past i ++ t.rest i = program i

theorem Runs.past_prefix {program : ι → List α} {t : Threads ι α σ} (runs : t.Runs program)
    (i : ι) : t.past i <+: program i :=
  ⟨t.rest i, runs i⟩

theorem Runs.past_eq {program : ι → List α} {t : Threads ι α σ} (runs : t.Runs program) {i : ι}
    (done : t.rest i = []) : t.past i = program i := by
  rw [← runs i, done, List.append_nil]

section Tally
variable [Fintype ι]

def tally (weight : α → ℤ) (t : Threads ι α σ) : ℤ := ∑ i, ((t.past i).map weight).sum

theorem tally_start (weight : α → ℤ) (s : σ) (program : ι → List α) :
    (start s program).tally weight = 0 := by
  simp [tally, start]

def Covered (weight : α → ℤ) (program : List α) : Prop :=
  ∀ past, past <+: program → 0 ≤ (past.map weight).sum

theorem le_tally {weight : α → ℤ} {program : ι → List α} {t : Threads ι α σ}
    (runs : t.Runs program) (covered : ∀ i, Covered weight (program i)) (i : ι) :
    ((t.past i).map weight).sum ≤ t.tally weight := by
  refine Finset.single_le_sum (f := fun i => ((t.past i).map weight).sum) (fun j _ => ?_)
    (Finset.mem_univ i)
  exact covered j (t.past j) (runs.past_prefix j)

end Tally

variable [DecidableEq ι] (exec : α → σ → Option σ)

def step (t : Threads ι α σ) (i : ι) : Option (Threads ι α σ) :=
  match t.rest i with
  | [] => none
  | a :: as =>
      (exec a t.shared).map fun s =>
        { shared := s
          past := Function.update t.past i (t.past i ++ [a])
          rest := Function.update t.rest i as }

theorem step_cases {t t' : Threads ι α σ} {i : ι} (taken : step exec t i = some t') :
    ∃ a as s, t.rest i = a :: as ∧ exec a t.shared = some s ∧
      t' = { shared := s
             past := Function.update t.past i (t.past i ++ [a])
             rest := Function.update t.rest i as } := by
  rw [step] at taken
  split at taken
  · simp at taken
  · rename_i a as next
    obtain ⟨s, carried, rfl⟩ := Option.map_eq_some_iff.mp taken
    exact ⟨a, as, s, next, carried, rfl⟩

theorem runs_step {program : ι → List α} {t t' : Threads ι α σ} {i : ι} (runs : t.Runs program)
    (taken : step exec t i = some t') : t'.Runs program := by
  obtain ⟨a, as, s, next, -, rfl⟩ := step_cases exec taken
  intro j
  by_cases same : j = i
  · subst same
    simp only [Function.update_self, List.append_assoc, List.singleton_append]
    rw [← next]
    exact runs j
  · simp only [Function.update_of_ne same]
    exact runs j

theorem runs_run {program : ι → List α} {s : σ} {schedule : List ι} {t : Threads ι α σ}
    (reached : run (step exec) (start s program) schedule = some t) : t.Runs program :=
  run_invariant _ (fun _ _ _ runs taken => runs_step exec runs taken) (fun _ => rfl) reached

variable [Fintype ι]

theorem tally_step {weight : α → ℤ} {t : Threads ι α σ} {i : ι} (a : α) (as : List α) (s : σ) :
    tally weight { shared := s
                   past := Function.update t.past i (t.past i ++ [a])
                   rest := Function.update t.rest i as } = t.tally weight + weight a := by
  rw [tally, tally, ← Finset.add_sum_erase _ _ (Finset.mem_univ i),
    ← Finset.add_sum_erase _ _ (Finset.mem_univ i)]
  have others : ∑ j ∈ Finset.univ.erase i,
      ((Function.update t.past i (t.past i ++ [a]) j).map weight).sum =
        ∑ j ∈ Finset.univ.erase i, ((t.past j).map weight).sum := by
    refine Finset.sum_congr rfl fun j other => ?_
    rw [Function.update_of_ne (Finset.ne_of_mem_erase other)]
  simp only [others, Function.update_self]
  rw [List.map_append, List.sum_append, List.map_singleton,
    List.sum_singleton]
  omega

theorem run_tally {f : σ → ℤ} {weight : α → ℤ}
    (changes : ∀ a s s', exec a s = some s' → f s' = f s + weight a)
    {program : ι → List α} {s : σ} {schedule : List ι} {t : Threads ι α σ}
    (reached : run (step exec) (start s program) schedule = some t) :
    f t.shared = f s + t.tally weight := by
  refine @run_invariant _ _ (step exec) (fun t => f t.shared = f s + t.tally weight) _ _ _
    (fun t i t' before taken => ?_) ?_ reached
  · obtain ⟨a, as, s', -, carried, rfl⟩ := step_cases exec taken
    rw [tally_step, changes a t.shared s' carried, before, add_assoc]
  · rw [tally_start, add_zero]
    rfl

theorem run_tally_of_covered {f : σ → ℤ} {weight : α → ℤ}
    (changes : ∀ a s s', exec a s = some s' → 0 ≤ f s + weight a →
      f s' = f s + weight a)
    {program : ι → List α} (covered : ∀ i, Covered weight (program i)) {s : σ}
    (nonnegative : 0 ≤ f s) {schedule : List ι} {t : Threads ι α σ}
    (reached : run (step exec) (start s program) schedule = some t) :
    f t.shared = f s + t.tally weight := by
  refine (@run_invariant _ _ (step exec)
    (fun t => t.Runs program ∧ f t.shared = f s + t.tally weight) _ _ _
    (fun t i t' before taken => ?_) ⟨fun _ => rfl, ?_⟩ reached).2
  · obtain ⟨runs, before⟩ := before
    refine ⟨runs_step exec runs taken, ?_⟩
    obtain ⟨a, as, s', next, carried, rfl⟩ := step_cases exec taken
    have own : 0 ≤ ((t.past i ++ [a]).map weight).sum := by
      refine covered i _ ⟨as, ?_⟩
      rw [List.append_assoc, List.singleton_append, ← next]
      exact runs i
    rw [List.map_append, List.sum_append, List.map_singleton, List.sum_singleton] at own
    have others := le_tally runs covered i
    rw [tally_step, changes a t.shared s' carried (by omega), before, add_assoc]
  · rw [tally_start, add_zero]
    rfl

end Threads

end ProxyServer.Lib
