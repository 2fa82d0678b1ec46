import ProxyServer.Lib.Block

/-!
# Blocks that grow

`realloc` keeps what is in a block, and what it adds is not set. A growable buffer is the block, how
much of it is in use, and its size as its owner counts it.
-/

namespace ProxyServer.Lib.Block

section Entries

variable {α : Type} {block : List α} {i n : Nat}

def realloc (found : Nat → α) (block : List α) (n : Nat) : List α :=
  block.take n ++ (List.range (n - block.length)).map found

def entryAt (block : List α) (i : Nat) : Checked α :=
  match block[i]? with
  | some a => .ok a
  | none => .error .outOfBounds

def setEntry (block : List α) (i : Nat) (a : α) : Checked (List α) :=
  if i < block.length then .ok (block.set i a) else .error .outOfBounds

def fill (a : α) (block : List α) (i : Nat) : Nat → Checked (List α)
  | 0 => return block
  | n + 1 => do
      let block ← setEntry block i a
      fill a block (i + 1) n

theorem length_realloc (found : Nat → α) (block : List α) (n : Nat) :
    (realloc found block n).length = n := by
  rw [realloc, List.length_append, List.length_take, List.length_map, List.length_range]
  omega

theorem realloc_prefix (found : Nat → α) (le : block.length ≤ n) :
    block <+: realloc found block n := by
  rw [realloc, List.take_of_length_le le]
  exact List.prefix_append _ _

theorem fill_append (a : α) (front rest : List α) :
    fill a (front ++ rest) front.length rest.length =
      .ok (front ++ List.replicate rest.length a) := by
  induction rest generalizing front with
  | nil => rfl
  | cons b rest ih =>
      have first : setEntry (front ++ b :: rest) front.length a = .ok ((front ++ [a]) ++ rest) := by
        rw [setEntry, if_pos (by simp)]
        simp
      have next := ih (front ++ [a])
      rw [List.length_append, List.length_singleton] at next
      rw [List.length_cons, fill, first, ok_bind, next, List.replicate_succ, List.append_assoc]
      rfl

theorem fill_realloc (found : Nat → α) (a : α) (le : block.length ≤ n) :
    fill a (realloc found block n) block.length (n - block.length) =
      .ok (block ++ List.replicate (n - block.length) a) := by
  obtain ⟨rest, whole⟩ := realloc_prefix found le
  have counted : n - block.length = rest.length := by
    have total := congrArg List.length whole
    rw [length_realloc, List.length_append] at total
    omega
  rw [← whole, counted, fill_append]

theorem countP_set_some {block : List (Option α)} (inside : i < block.length) (a : α) :
    (block.set i (some a)).countP Option.isSome =
      block.countP Option.isSome + if ((block[i]?).join).isSome then 0 else 1 := by
  rw [List.countP_set inside, List.getElem?_eq_getElem inside, Option.join_some]
  simp only [Option.isSome_some, if_true]
  split_ifs with present
  · have positive : 0 < block.countP Option.isSome :=
      List.countP_pos_iff.mpr ⟨_, List.getElem_mem inside, present⟩
    omega
  · rfl

end Entries

structure Growable where
  block : Bytes
  used : Nat
  size : Nat

namespace Growable

def empty : Growable := ⟨[], 0, 0⟩

def contents (b : Growable) : Bytes := b.block.take b.used

def reserve (slack : Nat) (found : Nat → UInt8) (b : Growable) (needed : Nat) : Growable :=
  if b.size < b.used + needed then
    { b with
      block := realloc found b.block (b.used + needed + slack)
      size := b.used + needed + slack }
  else b

def append (b : Growable) (bytes : Bytes) : Checked Growable := do
  let (block, used) ← put (b.block, b.used) bytes
  return { b with block, used }

structure Sound (b : Growable) : Prop where
  allocated : b.size = b.block.length
  inside : b.used ≤ b.size

structure Holds (b : Growable) (contents : Bytes) (size : Nat) : Prop where
  sound : b.Sound
  contents : b.contents = contents
  size : b.size = size

variable {b : Growable} {slack needed : Nat} {found : Nat → UInt8} {bytes contents : Bytes}
  {size : Nat}

theorem holds_empty : empty.Holds [] 0 := ⟨⟨rfl, le_rfl⟩, rfl, rfl⟩

theorem Sound.length_contents (sound : b.Sound) : b.contents.length = b.used := by
  rw [Growable.contents, List.length_take, ← sound.allocated, min_eq_left sound.inside]

theorem Holds.used (holds : b.Holds contents size) : b.used = contents.length := by
  rw [← holds.contents, holds.sound.length_contents]

theorem Holds.reserve (holds : b.Holds contents size) :
    (b.reserve slack found needed).Holds contents
      (if size < contents.length + needed then contents.length + needed + slack else size) := by
  have used := holds.used
  obtain ⟨⟨allocated, inside⟩, rfl, rfl⟩ := holds
  rw [← used]
  unfold Growable.reserve
  split
  · have longer : b.block.length ≤ b.used + needed + slack := by omega
    obtain ⟨rest, whole⟩ := realloc_prefix found longer
    refine ⟨⟨(length_realloc _ _ _).symm, ?_⟩, ?_, rfl⟩
    · change b.used ≤ b.used + needed + slack
      omega
    · change (realloc found b.block _).take b.used = b.block.take b.used
      rw [← whole, List.take_append_of_le_length (by omega)]
  · exact ⟨⟨allocated, inside⟩, rfl, rfl⟩

theorem Holds.append (holds : b.Holds contents size)
    (fits : contents.length + bytes.length ≤ size) :
    ∃ d, b.append bytes = .ok d ∧ d.Holds (contents ++ bytes) size := by
  have used := holds.used
  obtain ⟨⟨allocated, inside⟩, rfl, rfl⟩ := holds
  have room : bytes.length ≤ (b.block.drop b.used).length := by
    rw [List.length_drop]
    omega
  have moved := @put_front b.contents bytes (b.block.drop b.used) room
  rw [← used, Growable.contents, List.take_append_drop] at moved
  have written : b.append bytes = .ok { b with
      block := b.contents ++ bytes ++ (b.block.drop b.used).drop bytes.length
      used := (b.contents ++ bytes).length } := by
    rw [Growable.append, moved]
    rfl
  refine ⟨_, written, ⟨?_, ?_⟩, List.take_left, rfl⟩
  · simp only [List.length_append, List.length_drop]
    omega
  · rw [List.length_append]
    exact fits

theorem Holds.rewrite (holds : b.Holds contents size) (same : bytes.length = contents.length)
    {n : Nat} (inside : n ≤ contents.length) :
    Holds { b with block := bytes ++ b.block.drop b.used, used := n } (bytes.take n) size := by
  have used := holds.used
  obtain ⟨⟨allocated, within⟩, -, rfl⟩ := holds
  refine ⟨⟨?_, ?_⟩, ?_, rfl⟩
  · simp only [List.length_append, List.length_drop]
    omega
  · change n ≤ b.size
    omega
  · change (bytes ++ b.block.drop b.used).take n = bytes.take n
    exact List.take_append_of_le_length (by omega)

theorem append_append (b : Growable) (first second : Bytes) :
    (b.append first >>= fun b => b.append second) = b.append (first ++ second) := by
  simp only [append, ← put_put, bind_assoc, pure_bind]

theorem Holds.extend (holds : b.Holds contents size) (enough : bytes.length ≤ needed) :
    ∃ d, (b.reserve slack found needed).append bytes = .ok d ∧
      d.Holds (contents ++ bytes)
        (if size < contents.length + needed then contents.length + needed + slack else size) := by
  refine Holds.append holds.reserve ?_
  split <;> omega

end Growable

end ProxyServer.Lib.Block
