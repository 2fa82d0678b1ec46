import Mathlib.Data.List.Nodup
import Mathlib.Logic.Function.Basic

namespace ProxyServer.Lib

variable {α ν : Type*}

/-- From `p`, the pointers `next` lead through exactly the cells `xs` to the null pointer. -/
def PointerPath (next : α → Option α) : Option α → List α → Prop
  | p, [] => p = none
  | p, a :: xs => p = some a ∧ PointerPath next (next a) xs

theorem path_head {next : α → Option α} {p : Option α} {xs : List α}
    (path : PointerPath next p xs) : p = xs.head? := by
  cases xs with
  | nil => exact path
  | cons a xs => exact path.1

theorem path_congr {next next' : α → Option α} {p : Option α} {xs : List α}
    (same : ∀ a ∈ xs, next' a = next a) (path : PointerPath next p xs) :
    PointerPath next' p xs := by
  induction xs generalizing p with
  | nil => exact path
  | cons a xs ih =>
      refine ⟨path.1, ?_⟩
      rw [same a (by simp)]
      exact ih (fun b member => same b (by simp [member])) path.2

theorem path_suffix {next : α → Option α} {p : Option α} {l r : List α} {a : α}
    (path : PointerPath next p (l ++ a :: r)) : PointerPath next (next a) r := by
  induction l generalizing p with
  | nil => exact path.2
  | cons b l ih => exact ih path.2

theorem path_next {next : α → Option α} {p : Option α} {l r : List α} {a : α}
    (path : PointerPath next p (l ++ a :: r)) : next a = r.head? :=
  path_head (path_suffix path)

theorem path_next_ne {next : α → Option α} {p : Option α} {l r : List α} {a b c : α}
    (path : PointerPath next p (l ++ b :: a :: r)) (nodup : (l ++ b :: a :: r).Nodup)
    (member : c ∈ l) :
    next c ≠ some a := by
  obtain ⟨l₁, l₂, rfl⟩ := List.append_of_mem member
  rw [List.append_assoc, List.cons_append] at path
  rw [path_next path]
  intro first
  have inside : a ∈ l₂ ++ [b] := by
    cases l₂ with
    | nil => simpa using first.symm
    | cons d l₂ => simpa using Or.inl (Option.some.inj first).symm
  rw [show l₁ ++ c :: l₂ ++ b :: a :: r = (l₁ ++ c :: (l₂ ++ [b])) ++ a :: r by simp] at nodup
  apply (List.nodup_middle.mp nodup).notMem
  rw [List.mem_append, List.mem_append, List.mem_cons]
  exact Or.inl (Or.inr (Or.inr inside))

theorem path_extend {next next' : α → Option α} {p : Option α} {l : List α} {t a : α}
    (path : PointerPath next p (l ++ [t])) (same : ∀ c ∈ l, next' c = next c)
    (link : next' t = some a) (last : next' a = none) : PointerPath next' p (l ++ [t] ++ [a]) := by
  induction l generalizing p with
  | nil => exact ⟨path.1, link, last⟩
  | cons c l ih =>
      refine ⟨path.1, ?_⟩
      rw [same c (by simp)]
      exact ih path.2 fun d member => same d (by simp [member])

/-! ## Walking along a path -/

/-- The loop `while (curr) { if (stop) break; prev = curr; curr = next; }` and the two pointers it
ends with. It fails on a cell that is not allocated, and when it is given too little `fuel`. -/
def walk (load : α → Option ν) (next : ν → Option α) (stop : α → ν → Bool) :
    Nat → Option α → Option α → Option (Option α × Option α)
  | 0, _, _ => none
  | _ + 1, prev, none => some (prev, none)
  | fuel + 1, prev, some a => (load a).bind fun cell =>
      if stop a cell then some (prev, some a) else walk load next stop fuel (some a) (next cell)

theorem walk_through {load : α → Option ν} {next : ν → Option α} {stop : α → ν → Bool}
    {p prev : Option α} {l r : List α} {fuel : Nat}
    (path : PointerPath (fun a => (load a).bind next) p (l ++ r))
    (passes : ∀ b ∈ l, ∃ cell, load b = some cell ∧ stop b cell = false)
    (enough : l.length ≤ fuel) :
    walk load next stop fuel prev p =
      walk load next stop (fuel - l.length) (l.getLast?.or prev) r.head? := by
  induction l generalizing p prev fuel with
  | nil =>
      rw [path_head path]
      simp
  | cons b l ih =>
      cases fuel with
      | zero => simp at enough
      | succ fuel =>
          obtain ⟨cell, loaded, continues⟩ := passes b (by simp)
          have rest : PointerPath (fun a => (load a).bind next) (next cell) (l ++ r) := by
            simpa [loaded] using path.2
          rw [path.1, walk, loaded, Option.bind_some, continues]
          simp only [Bool.false_eq_true, ↓reduceIte]
          rw [ih rest (fun c member => passes c (by simp [member])) (by simpa using enough)]
          cases l <;> simp [List.getLast?_cons]

theorem walk_found {load : α → Option ν} {next : ν → Option α} {stop : α → ν → Bool}
    {p prev : Option α} {l r : List α} {a : α} {cell : ν} {fuel : Nat}
    (path : PointerPath (fun a => (load a).bind next) p (l ++ a :: r))
    (passes : ∀ b ∈ l, ∃ cell, load b = some cell ∧ stop b cell = false)
    (loaded : load a = some cell) (stops : stop a cell = true) (enough : l.length < fuel) :
    walk load next stop fuel prev p = some (l.getLast?.or prev, some a) := by
  rw [walk_through path passes (Nat.le_of_lt enough)]
  obtain ⟨k, positive⟩ : ∃ k, fuel - l.length = k + 1 := ⟨fuel - l.length - 1, by omega⟩
  simp [positive, walk, loaded, stops]

theorem walk_missed {load : α → Option ν} {next : ν → Option α} {stop : α → ν → Bool}
    {p prev : Option α} {xs : List α} {fuel : Nat}
    (path : PointerPath (fun a => (load a).bind next) p xs)
    (passes : ∀ b ∈ xs, ∃ cell, load b = some cell ∧ stop b cell = false)
    (enough : xs.length < fuel) :
    walk load next stop fuel prev p = some (xs.getLast?.or prev, none) := by
  rw [← List.append_nil xs] at path
  rw [walk_through path passes (Nat.le_of_lt enough)]
  obtain ⟨k, positive⟩ : ∃ k, fuel - xs.length = k + 1 := ⟨fuel - xs.length - 1, by omega⟩
  simp [positive, walk]

/-! ## Taking a cell out of a singly linked list -/

section Edit
variable [DecidableEq α]

def relink (p : Option α) (next : α → Option α) (before v : Option α) :
    Option α × (α → Option α) :=
  match before with
  | none => (v, next)
  | some b => (p, Function.update next b v)

theorem relink_path {p : Option α} {next : α → Option α} {l r : List α} {a : α}
    (path : PointerPath next p (l ++ a :: r)) (nodup : (l ++ a :: r).Nodup) :
    PointerPath (relink p next l.getLast? (next a)).2 (relink p next l.getLast? (next a)).1
      (l ++ r) := by
  rcases List.eq_nil_or_concat l with rfl | ⟨l, b, rfl⟩
  · exact path.2
  · simp only [List.concat_eq_append, List.getLast?_append, List.getLast?_singleton,
      Option.some_or, relink, List.append_assoc, List.singleton_append] at path nodup ⊢
    induction l generalizing p with
    | nil =>
        refine ⟨path.1, ?_⟩
        simp only [Function.update_self]
        apply path_congr _ path.2.2
        intro c member
        rw [Function.update_of_ne]
        intro same
        obtain rfl := same
        simp [member] at nodup
    | cons c l ih =>
        simp only [List.cons_append, List.nodup_cons] at nodup path
        have different : c ≠ b := by
          intro same
          obtain rfl := same
          simp at nodup
        refine ⟨path.1, ?_⟩
        rw [Function.update_of_ne different]
        exact ih path.2 nodup.2

theorem relink_elsewhere {p : Option α} {next : α → Option α} {before v : Option α} {c : α}
    (different : ∀ b, before = some b → c ≠ b) : (relink p next before v).2 c = next c := by
  cases before with
  | none => rfl
  | some b => exact Function.update_of_ne (different b rfl) _ _

end Edit

/-! ## Doubly linked lists -/

@[ext] structure Links (α : Type*) where
  head : Option α
  tail : Option α
  next : α → Option α
  prev : α → Option α

namespace Links

structure Holds (d : Links α) (xs : List α) : Prop where
  forward : PointerPath d.next d.head xs
  backward : PointerPath d.prev d.tail xs.reverse
  nodup : xs.Nodup

theorem Holds.next_eq {d : Links α} {l r : List α} {a : α} (holds : d.Holds (l ++ a :: r)) :
    d.next a = r.head? :=
  path_next holds.forward

theorem Holds.prev_eq {d : Links α} {l r : List α} {a : α} (holds : d.Holds (l ++ a :: r)) :
    d.prev a = l.getLast? := by
  have path := holds.backward
  rw [List.reverse_append, List.reverse_cons, List.append_assoc, List.singleton_append] at path
  rw [path_next path, List.head?_reverse]

theorem Holds.head_eq {d : Links α} {xs : List α} (holds : d.Holds xs) : d.head = xs.head? :=
  path_head holds.forward

theorem Holds.tail_eq {d : Links α} {xs : List α} (holds : d.Holds xs) : d.tail = xs.getLast? := by
  rw [path_head holds.backward, List.head?_reverse]

theorem Holds.head_prev {d : Links α} {xs : List α} {a : α} (holds : d.Holds xs)
    (head : d.head = some a) : d.prev a = none := by
  rw [holds.head_eq] at head
  obtain ⟨r, rfl⟩ := List.head?_eq_some_iff.mp head
  exact holds.prev_eq (l := [])

theorem Holds.tail_next {d : Links α} {xs : List α} {a : α} (holds : d.Holds xs)
    (tail : d.tail = some a) : d.next a = none := by
  rw [holds.tail_eq] at tail
  obtain ⟨l, rfl⟩ := List.getLast?_eq_some_iff.mp tail
  exact holds.next_eq (r := [])

theorem Holds.next_prev {d : Links α} {xs : List α} {a b : α} (holds : d.Holds xs)
    (member : a ∈ xs) (next : d.next a = some b) : d.prev b = some a := by
  obtain ⟨l, r, rfl⟩ := List.append_of_mem member
  rw [holds.next_eq] at next
  obtain ⟨r, rfl⟩ := List.head?_eq_some_iff.mp next
  have shifted : d.Holds ((l ++ [a]) ++ b :: r) := by simpa using holds
  rw [shifted.prev_eq, List.getLast?_concat]

theorem Holds.congr {d : Links α} {xs : List α} (holds : d.Holds xs) (d' : Links α)
    (head : d'.head = d.head) (tail : d'.tail = d.tail)
    (next : ∀ a ∈ xs, d'.next a = d.next a) (prev : ∀ a ∈ xs, d'.prev a = d.prev a) :
    d'.Holds xs where
  forward := head ▸ path_congr next holds.forward
  backward := tail ▸ path_congr (fun a member => prev a (by simpa using member)) holds.backward
  nodup := holds.nodup

section Edit
variable [DecidableEq α]

def remove (d : Links α) (a : α) : Links α :=
  let forward := relink d.head d.next (d.prev a) (d.next a)
  let backward := relink d.tail d.prev (forward.2 a) (d.prev a)
  { head := forward.1, tail := backward.1, next := forward.2, prev := backward.2 }

def append (d : Links α) (a : α) : Links α :=
  let forward := relink d.head (Function.update d.next a none) d.tail (some a)
  { head := forward.1, tail := some a, next := forward.2, prev := Function.update d.prev a d.tail }

theorem Holds.remove_next {d : Links α} {l r : List α} {a : α} (holds : d.Holds (l ++ a :: r)) :
    (d.remove a).next a = d.next a := by
  apply relink_elsewhere
  intro b before same
  obtain rfl := same
  rw [holds.prev_eq] at before
  have member := List.mem_of_getLast? before
  exact (List.nodup_middle.mp holds.nodup).notMem (List.mem_append_left r member)

theorem Holds.remove {d : Links α} {l r : List α} {a : α} (holds : d.Holds (l ++ a :: r)) :
    (d.remove a).Holds (l ++ r) := by
  have nodup := holds.nodup
  have forwardNext : (relink d.head d.next (d.prev a) (d.next a)).2 a = d.next a :=
    holds.remove_next
  refine ⟨?_, ?_, ?_⟩
  · simp only [Links.remove, holds.prev_eq]
    exact relink_path holds.forward nodup
  · have path := holds.backward
    have reversed : (l ++ a :: r).reverse.Nodup := List.nodup_reverse.mpr nodup
    rw [List.reverse_append, List.reverse_cons, List.append_assoc, List.singleton_append]
      at path reversed
    have result := relink_path path reversed
    rw [List.getLast?_reverse] at result
    simp only [Links.remove, forwardNext, List.reverse_append]
    rwa [holds.next_eq]
  · exact (List.nodup_middle.mp nodup).of_cons

theorem Holds.append {d : Links α} {xs : List α} {a : α} (holds : d.Holds xs) (fresh : a ∉ xs) :
    (d.append a).Holds (xs ++ [a]) := by
  have elsewhere : ∀ b ∈ xs, b ≠ a := fun b member same => fresh (same ▸ member)
  have nodup : (xs ++ [a]).Nodup := List.nodup_append.mpr
    ⟨holds.nodup, List.nodup_singleton a, by simpa using elsewhere⟩
  rcases List.eq_nil_or_concat xs with rfl | ⟨l, t, rfl⟩
  · have tail : d.tail = none := by simpa using holds.tail_eq
    refine ⟨?_, ?_, nodup⟩ <;> simp [Links.append, relink, tail, PointerPath]
  · simp only [List.concat_eq_append] at *
    have tail : d.tail = some t := by simpa using holds.tail_eq
    refine ⟨?_, ?_, nodup⟩
    · simp only [Links.append, relink, tail]
      apply path_extend holds.forward
      · intro c member
        have different : c ≠ t := by
          intro same
          obtain rfl := same
          exact (List.nodup_middle.mp holds.nodup).notMem (by simpa using member)
        rw [Function.update_of_ne different, Function.update_of_ne (elsewhere c (by simp [member]))]
      · simp
      · rw [Function.update_of_ne (Ne.symm (elsewhere t (by simp))), Function.update_self]
    · simp only [Links.append, tail, List.reverse_append, List.reverse_singleton,
        List.singleton_append]
      refine ⟨rfl, ?_⟩
      simp only [Function.update_self]
      have backward := holds.backward
      simp only [List.reverse_append, List.reverse_singleton, List.singleton_append, tail]
        at backward
      apply path_congr _ backward
      intro c member
      exact Function.update_of_ne (elsewhere c (by simpa [or_comm] using member)) _ _

end Edit
end Links
end ProxyServer.Lib
