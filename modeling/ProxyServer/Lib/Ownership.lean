import Mathlib.Data.Finset.Basic
import Mathlib.Data.Finset.Lattice.Lemmas
import ProxyServer.Lib.Run

/-!
# Owned resources

A program acquires resources, uses them and releases them. It owns what it touches if it uses and
releases nothing but what it has acquired and not released yet.
-/

namespace ProxyServer.Lib

inductive Touch (ρ : Type*) where
  | acquire (r : ρ)
  | use (r : ρ)
  | release (r : ρ)

variable {ρ : Type*} [DecidableEq ρ]

def Touch.step (live : Finset ρ) : Touch ρ → Option (Finset ρ)
  | .acquire r => if r ∈ live then none else some (insert r live)
  | .use r => if r ∈ live then some live else none
  | .release r => if r ∈ live then some (live.erase r) else none

def Owns (before : Finset ρ) (touches : List (Touch ρ)) (after : Finset ρ) : Prop :=
  run Touch.step before touches = some after

variable {a b c : Finset ρ} {t u : List (Touch ρ)}

theorem owns_nil (a : Finset ρ) : Owns a [] a := rfl

theorem Owns.append (first : Owns a t b) (second : Owns b u c) : Owns a (t ++ u) c := by
  rw [Owns, run_append, first, Option.bind_some]
  exact second

theorem Owns.append_iff (first : Owns a t b) : Owns a (t ++ u) c ↔ Owns b u c := by
  rw [Owns, run_append, first, Option.bind_some, Owns]

theorem owns_cons {x : Touch ρ} : Owns a (x :: t) c ↔ ∃ b, x.step a = some b ∧ Owns b t c :=
  Option.bind_eq_some_iff

theorem owns_acquire {r : ρ} (fresh : r ∉ a) : Owns a [.acquire r] (insert r a) := by
  simp [Owns, run, Touch.step, fresh]

theorem owns_uses {rs : List ρ} (live : ∀ r ∈ rs, r ∈ a) : Owns a (rs.map .use) a := by
  induction rs with
  | nil => rfl
  | cons r rs ih =>
      refine owns_cons.mpr ⟨a, ?_, ih fun r member => live r (by simp [member])⟩
      rw [Touch.step, if_pos (live r (by simp))]

theorem Touch.step_frame {x : Touch ρ} {f : Finset ρ} (apart : Disjoint a f)
    (fresh : ∀ r, x = .acquire r → r ∉ f) (taken : x.step a = some b) :
    x.step (a ∪ f) = some (b ∪ f) ∧ Disjoint b f := by
  cases x with
  | acquire r =>
      simp only [Touch.step, Option.ite_none_left_eq_some, Option.some.injEq] at taken ⊢
      obtain ⟨new, rfl⟩ := taken
      refine ⟨⟨by simp [new, fresh r rfl], by rw [Finset.insert_union]⟩, ?_⟩
      rw [Finset.disjoint_insert_left]
      exact ⟨fresh r rfl, apart⟩
  | use r =>
      simp only [Touch.step, Option.ite_none_right_eq_some, Option.some.injEq] at taken ⊢
      obtain ⟨live, rfl⟩ := taken
      exact ⟨⟨by simp [live], rfl⟩, apart⟩
  | release r =>
      simp only [Touch.step, Option.ite_none_right_eq_some, Option.some.injEq] at taken ⊢
      obtain ⟨live, rfl⟩ := taken
      have outside : r ∉ f := Finset.disjoint_left.mp apart live
      refine ⟨⟨by simp [live], ?_⟩, apart.mono_left (Finset.erase_subset r a)⟩
      rw [Finset.erase_union_distrib, Finset.erase_eq_of_notMem outside]

theorem Owns.frame {f : Finset ρ} (owns : Owns a t b) (apart : Disjoint a f)
    (fresh : ∀ r, .acquire r ∈ t → r ∉ f) : Owns (a ∪ f) t (b ∪ f) := by
  induction t generalizing a with
  | nil =>
      cases owns
      rfl
  | cons x t ih =>
      obtain ⟨m, taken, rest⟩ := owns_cons.mp owns
      obtain ⟨stepped, apart'⟩ :=
        Touch.step_frame apart (fun r same => fresh r (by simp [same])) taken
      exact owns_cons.mpr ⟨_, stepped, ih rest apart' fun r member => fresh r (by simp [member])⟩

variable {α : Type*}

theorem Owns.loop {turn : α → List (Touch ρ)} {xs : List α} (owns : ∀ x, Owns a (turn x) a) :
    Owns a (xs.flatMap turn) a := by
  induction xs with
  | nil => rfl
  | cons x xs ih => exact (owns x).append ih

def held (holds : α → Finset ρ) : List α → Finset ρ
  | [] => ∅
  | x :: xs => holds x ∪ held holds xs

variable {holds left : α → Finset ρ} {touches : α → List (Touch ρ)} {xs ys : List α}

@[simp]
theorem mem_held {r : ρ} : r ∈ held holds xs ↔ ∃ x ∈ xs, r ∈ holds x := by
  induction xs with
  | nil => simp [held]
  | cons x xs ih => simp [held, ih]

theorem held_append : held holds (xs ++ ys) = held holds xs ∪ held holds ys := by
  ext r
  simp [or_and_right, exists_or]

theorem Owns.flatMap (owns : ∀ x ∈ xs, Owns (holds x) (touches x) (left x))
    (fewer : ∀ x, left x ⊆ holds x) (still : ∀ x r, .acquire r ∉ touches x)
    (apart : xs.Pairwise fun x y => Disjoint (holds x) (holds y)) :
    Owns (held holds xs) (xs.flatMap touches) (held left xs) := by
  induction xs with
  | nil => rfl
  | cons x xs ih =>
      obtain ⟨first, later⟩ := List.pairwise_cons.mp apart
      have outside : Disjoint (holds x) (held holds xs) := by
        rw [Finset.disjoint_left]
        intro r mine
        rw [mem_held]
        rintro ⟨y, member, yours⟩
        exact Finset.disjoint_left.mp (first y member) mine yours
      have mine := (owns x (by simp)).frame outside fun r acquired => absurd acquired (still x r)
      have yours := ih (fun y member => owns y (by simp [member])) later
      have others := yours.frame (outside.symm.mono_right (fewer x)) fun r acquired => by
        obtain ⟨y, -, touched⟩ := List.mem_flatMap.mp acquired
        exact absurd touched (still y r)
      rw [Finset.union_comm _ (left x), Finset.union_comm _ (left x)] at others
      exact mine.append others

end ProxyServer.Lib
