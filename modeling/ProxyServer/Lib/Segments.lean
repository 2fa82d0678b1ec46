import Mathlib.Algebra.BigOperators.Group.List.Basic
import Mathlib.Algebra.GroupWithZero.Nat
import Mathlib.Algebra.Order.BigOperators.Group.List

namespace ProxyServer.Lib

structure Segments (α : Type*) where
  dropped : List α
  backup : List α
  current : List α

namespace Segments

variable {α : Type*} (s : Segments α)

def all : List α := s.dropped ++ s.backup ++ s.current

def append (x : α) : Segments α := { s with current := s.current ++ [x] }

def rotate : Segments α := ⟨s.dropped ++ s.backup, s.current, []⟩

@[simp] theorem all_append (x : α) : (s.append x).all = s.all ++ [x] := by simp [all, append]

@[simp] theorem all_rotate : s.rotate.all = s.all := by simp [all, rotate]

variable {s} (size : α → Nat) {limit : Nat}

def weight (xs : List α) : Nat := (xs.map size).sum

def Retains (limit : Nat) (s : Segments α) : Prop := s.dropped = [] ∨ limit ≤ weight size s.backup

variable {size}

theorem Retains.append (retains : s.Retains size limit) (x : α) :
    (s.append x).Retains size limit := retains

theorem retains_rotate (full : limit ≤ weight size s.current) : s.rotate.Retains size limit :=
  Or.inr full

theorem Retains.newest {xs ys : List α} (retains : s.Retains size limit) (split : s.all = xs ++ ys)
    (small : weight size ys ≤ limit) (positive : ∀ y ∈ ys, 0 < size y) :
    ys <:+ s.backup ++ s.current := by
  have whole : s.dropped ++ (s.backup ++ s.current) = xs ++ ys := by rw [← split, all]; simp
  rcases List.append_eq_append_iff.mp whole with ⟨more, isFront, kept⟩ | ⟨more, isFront, kept⟩
  · exact kept ▸ List.suffix_append more ys
  · rcases retains with none | full
    · rw [none] at isFront
      obtain ⟨-, rfl⟩ := List.append_eq_nil_iff.mp isFront.symm
      exact ⟨[], by simpa using kept⟩
    · -- `ys` is what is kept with records of no size in front.
      have total : weight size ys = weight size more + weight size s.backup +
          weight size s.current := by
        rw [kept]
        simp [weight, Nat.add_assoc]
      cases more with
      | nil => exact ⟨[], by simpa using kept⟩
      | cons y more =>
          have filled := positive y (by rw [kept]; simp)
          have counted : weight size (y :: more) = size y + weight size more := by simp [weight]
          omega

end Segments
end ProxyServer.Lib
