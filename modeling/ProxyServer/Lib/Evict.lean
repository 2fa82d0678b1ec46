import Mathlib.Algebra.BigOperators.Group.List.Basic
import Mathlib.Algebra.Order.Ring.Int
import Mathlib.Data.List.Induction
import Mathlib.Data.List.Nodup
import Mathlib.Data.List.Sort

namespace ProxyServer.Lib

variable {α ν : Type*} (key : α → Int)

/-! ## The order of eviction -/

def rank (xs : List α) : List α := xs.insertionSort fun a b => key a ≤ key b

theorem rank_perm (xs : List α) : (rank key xs).Perm xs := List.perm_insertionSort _ xs

theorem rank_constant {xs : List α} (constant : ∀ a b, key a ≤ key b) : rank key xs = xs :=
  List.Pairwise.insertionSort_eq (List.pairwise_of_forall constant)

def lesser (best a : α) : α := if key a < key best then a else best

theorem lesser_assoc (a b c : α) :
    lesser key (lesser key a b) c = lesser key a (lesser key b c) := by
  unfold lesser
  split_ifs <;> first | rfl | omega

theorem rank_cons_head (x : α) (xs : List α) :
    (rank key (x :: xs)).head? = some ((rank key xs).head?.elim x (lesser key x)) := by
  simp only [rank, List.insertionSort_cons]
  cases xs.insertionSort fun a b => key a ≤ key b with
  | nil => rfl
  | cons b ys =>
      simp only [List.orderedInsert_cons, List.head?_cons, Option.elim_some, lesser]
      split_ifs <;> first | rfl | omega

theorem rank_head (x : α) (xs : List α) :
    (rank key (x :: xs)).head? = some (xs.foldl (lesser key) x) := by
  induction xs generalizing x with
  | nil => rfl
  | cons c xs ih =>
      rw [List.foldl_cons, ← ih, rank_cons_head, rank_cons_head, rank_cons_head]
      cases (rank key xs).head? with
      | none => rfl
      | some m => simp [lesser_assoc]

def FirstLeast (xs : List α) (x : α) : Prop :=
  ∃ before after, xs = before ++ x :: after ∧ (∀ y ∈ before, key x < key y) ∧
    ∀ y ∈ after, key x ≤ key y

theorem FirstLeast.concat {key : α → Int} {xs : List α} {x : α} (least : FirstLeast key xs x)
    (y : α) : FirstLeast key (xs ++ [y]) (lesser key x y) := by
  obtain ⟨before, after, rfl, earlier, later⟩ := least
  unfold lesser
  split_ifs with smaller
  · refine ⟨before ++ x :: after, [], rfl, ?_, by simp⟩
    intro z member
    rcases List.mem_append.mp member with inside | inside
    · exact smaller.trans (earlier z inside)
    · rcases List.mem_cons.mp inside with rfl | inside
      · exact smaller
      · exact smaller.trans_le (later z inside)
  · refine ⟨before, after ++ [y], by simp, earlier, ?_⟩
    intro z member
    rcases List.mem_append.mp member with inside | inside
    · exact later z inside
    · rw [List.mem_singleton.mp inside]
      exact not_lt.mp smaller

theorem firstLeast_foldl (x : α) (xs : List α) :
    FirstLeast key (x :: xs) (xs.foldl (lesser key) x) := by
  induction xs using List.reverseRecOn with
  | nil => exact ⟨[], [], rfl, by simp, by simp⟩
  | append_singleton xs y ih =>
      rw [List.foldl_append, List.foldl_cons, List.foldl_nil, ← List.cons_append]
      exact ih.concat y

theorem rank_erase [DecidableEq α] {xs ys : List α} {m : α} (ranked : rank key xs = m :: ys) :
    rank key (xs.erase m) = ys := by
  induction xs generalizing m ys with
  | nil => simp [rank] at ranked
  | cons x xs ih =>
      have inserted : rank key (x :: xs) = (rank key xs).orderedInsert _ x := rfl
      rw [inserted] at ranked
      cases rest : rank key xs with
      | nil =>
          have empty : xs = [] := by simpa [rest] using (rank_perm key xs).symm
          simp only [rest, List.orderedInsert_nil, List.cons.injEq] at ranked
          simp [empty, ← ranked.1, ← ranked.2, rank]
      | cons b zs =>
          rw [rest, List.orderedInsert_cons] at ranked
          split at ranked
          · obtain ⟨rfl, rfl⟩ := List.cons.inj ranked
            rw [List.erase_cons_head, rest]
          · rename_i smaller
            obtain ⟨rfl, rfl⟩ := List.cons.inj ranked
            have different : x ≠ b := by
              intro same
              obtain rfl := same
              exact smaller le_rfl
            rw [List.erase_cons_tail (by simpa using different), ← ih rest]
            rfl

/-! ## Giving up elements until the rest fits -/

variable (size : α → Nat) (fits : Nat → Bool)

def dropToFit : List α → List α
  | [] => []
  | x :: xs => if fits (((x :: xs).map size).sum) then x :: xs else dropToFit xs

theorem dropToFit_suffix (xs : List α) : dropToFit size fits xs <:+ xs := by
  induction xs with
  | nil => exact List.suffix_rfl
  | cons x xs ih =>
      unfold dropToFit
      split
      · exact List.suffix_rfl
      · exact ih.trans (List.suffix_cons x xs)

def evict [DecidableEq α] : Nat → List α → List α
  | 0, xs => xs
  | n + 1, xs =>
      if fits ((xs.map size).sum) then xs
      else match (rank key xs).head? with
        | none => xs
        | some m => evict n (xs.erase m)

theorem evict_eq [DecidableEq α] {n : Nat} {xs : List α} (nodup : xs.Nodup)
    (enough : xs.length ≤ n) :
    evict key size fits n xs = xs.filter (· ∈ dropToFit size fits (rank key xs)) := by
  induction n generalizing xs with
  | zero =>
      have empty : xs = [] := by simpa using enough
      simp [empty, evict]
  | succ n ih =>
      have total : ((rank key xs).map size).sum = (xs.map size).sum :=
        ((rank_perm key xs).map size).sum_eq
      unfold evict
      cases ranked : rank key xs with
      | nil =>
          have empty : xs = [] := by simpa [ranked] using (rank_perm key xs).symm
          simp [empty]
      | cons m ys =>
          rw [ranked] at total
          have member : m ∈ xs := (rank_perm key xs).mem_iff.mp (by simp [ranked])
          simp only [dropToFit, total, List.head?_cons]
          split
          · symm
            rw [List.filter_eq_self]
            intro a inside
            simpa [← ranked] using (rank_perm key xs).mem_iff.mpr inside
          · have shorter : (xs.erase m).length ≤ n := by
              rw [List.length_erase_of_mem member]
              omega
            rw [ih (nodup.erase m) shorter, rank_erase key ranked, nodup.erase_eq_filter,
              List.filter_filter]
            apply List.filter_congr
            intro a inside
            have gone : m ∉ ys := by
              rw [← rank_erase key ranked, (rank_perm key _).mem_iff]
              exact nodup.not_mem_erase
            by_cases same : a = m
            · subst same
              have lost : a ∉ dropToFit size fits ys :=
                fun kept => gone ((dropToFit_suffix size fits ys).subset kept)
              simp [lost]
            · simp [same]

theorem evict_constant [DecidableEq α] {n : Nat} {xs : List α} (nodup : xs.Nodup)
    (enough : xs.length ≤ n) (constant : ∀ a b, key a ≤ key b) :
    evict key size fits n xs = dropToFit size fits xs := by
  rw [evict_eq key size fits nodup enough, rank_constant key constant]
  obtain ⟨dropped, split⟩ := dropToFit_suffix size fits xs
  generalize dropToFit size fits xs = kept at split
  subst split
  have apart := List.disjoint_of_nodup_append nodup
  have lost : dropped.filter (· ∈ kept) = [] := by
    rw [List.filter_eq_nil_iff]
    intro a inside
    simpa using apart inside
  have all : kept.filter (· ∈ kept) = kept := List.filter_eq_self.mpr (by simp)
  rw [List.filter_append, lost, all, List.nil_append]

end ProxyServer.Lib
