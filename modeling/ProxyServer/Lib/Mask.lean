import Mathlib.Data.BitVec

namespace ProxyServer.Lib

variable {w : Nat} {p : Nat}

def SameLeading (p : Nat) (x y : BitVec w) : Prop := ∀ i < p, x.getMsbD i = y.getMsbD i

def IsMask (p : Nat) (mask : BitVec w) : Prop := ∀ i < w, mask.getMsbD i = decide (i < p)

theorem masked_eq_iff {mask x y : BitVec w} (isMask : IsMask p mask) :
    x &&& mask = y &&& mask ↔ SameLeading p x y := by
  constructor
  · intro same i below
    by_cases inside : i < w
    · have bit := congrArg (·.getMsbD i) same
      simpa [isMask i inside, below] using bit
    · rw [BitVec.getMsbD_of_ge _ _ (not_lt.mp inside), BitVec.getMsbD_of_ge _ _ (not_lt.mp inside)]
  · intro same
    apply BitVec.eq_of_getMsbD_eq
    intro i inside
    rw [BitVec.getMsbD_and, BitVec.getMsbD_and, isMask i inside]
    by_cases below : i < p
    · rw [same i below]
    · simp [below]

theorem isMask_shiftLeft (p : Nat) (enough : p ≤ w) : IsMask p (BitVec.allOnes w <<< (w - p)) := by
  intro i inside
  rw [BitVec.getMsbD_shiftLeft, BitVec.getMsbD_allOnes]
  exact decide_eq_decide.mpr (by omega)

theorem isMask_zero : IsMask 0 (0 : BitVec w) := by
  intro i _
  simp

variable {n : Nat}

def leadingBit (bytes : Fin n → BitVec 8) (i : Nat) : Bool :=
  if inside : i / 8 < n then (bytes ⟨i / 8, inside⟩).getMsbD (i % 8) else false

theorem leadingBit_eq (bytes : Fin n → BitVec 8) (j : Fin n) {i : Nat} (inside : i < 8) :
    leadingBit bytes (8 * j + i) = (bytes j).getMsbD i := by
  have byte : (8 * j.val + i) / 8 = j := by omega
  have bit : (8 * j.val + i) % 8 = i := by omega
  simp only [leadingBit, byte, bit, j.isLt, ↓reduceDIte]

theorem masked_bytes_iff {mask x y : Fin n → BitVec 8}
    (isMask : ∀ j : Fin n, IsMask (p - 8 * j.val) (mask j)) :
    (∀ j, x j &&& mask j = y j &&& mask j) ↔ ∀ i < p, leadingBit x i = leadingBit y i := by
  rw [forall_congr' fun j => masked_eq_iff (isMask j)]
  constructor
  · intro same i below
    unfold leadingBit
    split
    · rename_i inside
      exact same ⟨i / 8, inside⟩ (i % 8) (by simp only; omega)
    · rfl
  · intro same j i below
    by_cases inside : i < 8
    · rw [← leadingBit_eq x j inside, ← leadingBit_eq y j inside]
      exact same _ (by omega)
    · rw [BitVec.getMsbD_of_ge _ _ (not_lt.mp inside), BitVec.getMsbD_of_ge _ _ (not_lt.mp inside)]

end ProxyServer.Lib
