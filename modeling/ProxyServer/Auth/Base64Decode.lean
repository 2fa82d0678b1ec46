import ProxyServer.CString
import ProxyServer.Lib.Base64

namespace ProxyServer
open Lib.Base64

def maxCredsLen : Nat := 256

structure AuthMemory where
  decoded : Bytes
  decoded_size : decoded.length = maxCredsLen
  /-- The bytes after the terminator of the header. -/
  afterHeader : Nat → UInt8
  /-- What `b64index` reads for a `char` that is negative, as an index. -/
  beforeTable : UInt8 → Nat

def b64indexTable : List Nat :=
  [ 0,  0,  0,  0,  0,  0,  0,  0,  0,  0,  0,  0,  0,  0,  0,  0,
    0,  0,  0,  0,  0,  0,  0,  0,  0,  0,  0,  0,  0,  0,  0,  0,
    0,  0,  0,  0,  0,  0,  0,  0,  0,  0,  0, 62, 63, 62, 62, 63,
   52, 53, 54, 55, 56, 57, 58, 59, 60, 61,  0,  0,  0,  0,  0,  0,
    0,  0,  1,  2,  3,  4,  5,  6,  7,  8,  9, 10, 11, 12, 13, 14,
   15, 16, 17, 18, 19, 20, 21, 22, 23, 24, 25,  0,  0,  0,  0,  0,
    0, 26, 27, 28, 29, 30, 31, 32, 33, 34, 35, 36, 37, 38, 39, 40,
   41, 42, 43, 44, 45, 46, 47, 48, 49, 50, 51,  0,  0,  0,  0,  0,
    0,  0,  0,  0,  0,  0,  0,  0,  0,  0,  0,  0,  0,  0,  0,  0,
    0,  0,  0,  0,  0,  0,  0,  0,  0,  0,  0,  0,  0,  0,  0,  0,
    0,  0,  0,  0,  0,  0,  0,  0,  0,  0,  0,  0,  0,  0,  0,  0,
    0,  0,  0,  0,  0,  0,  0,  0,  0,  0,  0,  0,  0,  0,  0,  0,
    0,  0,  0,  0,  0,  0,  0,  0,  0,  0,  0,  0,  0,  0,  0,  0,
    0,  0,  0,  0,  0,  0,  0,  0,  0,  0,  0,  0,  0,  0,  0,  0,
    0,  0,  0,  0,  0,  0,  0,  0,  0,  0,  0,  0,  0,  0,  0,  0,
    0,  0,  0,  0,  0,  0,  0,  0,  0,  0,  0,  0,  0,  0,  0,  0]

namespace AuthMemory

variable (m : AuthMemory)

def b64index (c : UInt8) : Nat :=
  if signedChar c < 0 then m.beforeTable c else b64indexTable.getD (signedChar c).toNat 0

def b64group (pad outMax i : Nat) (out : Bytes) (a b c d : UInt8) : Bytes :=
  let n := m.b64index a <<< 18 ||| m.b64index b <<< 12 ||| m.b64index c <<< 6 ||| m.b64index d
  let out := out ++ [UInt8.ofNat (n >>> 16)]
  let out :=
    if out.length < outMax ∧ i + 4 - pad > i + 1 then out ++ [UInt8.ofNat (n >>> 8 &&& 0xFF)]
    else out
  if out.length < outMax ∧ i + 4 - pad > i + 2 then out ++ [UInt8.ofNat (n &&& 0xFF)] else out

def b64loop (pad outMax : Nat) : Nat → Bytes → Bytes → Bytes
  | _, out, [] => out
  | i, out, [a] =>
      if out.length < outMax then
        m.b64group pad outMax i out a 0 (m.afterHeader 0) (m.afterHeader 1)
      else out
  | i, out, [a, b] =>
      if out.length < outMax then m.b64group pad outMax i out a b 0 (m.afterHeader 0) else out
  | i, out, [a, b, c] =>
      if out.length < outMax then m.b64group pad outMax i out a b c 0 else out
  | i, out, a :: b :: c :: d :: rest =>
      if out.length < outMax then
        b64loop pad outMax (i + 4) (m.b64group pad outMax i out a b c d) rest
      else out

end AuthMemory

/-- `before` is the byte before the input, which is looked at when the input has one byte. -/
def paddingOf (before : UInt8) (input : Bytes) : Nat :=
  if input.getLast? = some 61 then
    if (before :: input.dropLast).getLast? = some 61 then 2 else 1
  else 0

namespace AuthMemory

variable (m : AuthMemory)

def b64decode (before : UInt8) (input out : Bytes) : Bytes × Nat :=
  if input = [] then (out, 0)
  else
    let written := m.b64loop (paddingOf before input) out.length 0 [] input
    (if written.length < out.length then written ++ 0 :: out.drop (written.length + 1) else written,
      written.length)

/-! ## What is written -/

def groupBytes (pad : Nat) (a b c d : UInt8) : Bytes :=
  let n := m.b64index a <<< 18 ||| m.b64index b <<< 12 ||| m.b64index c <<< 6 ||| m.b64index d
  if pad < 2 then [UInt8.ofNat (n >>> 16), UInt8.ofNat (n >>> 8 &&& 0xFF), UInt8.ofNat (n &&& 0xFF)]
  else [UInt8.ofNat (n >>> 16), UInt8.ofNat (n >>> 8 &&& 0xFF)]

def reading (pad : Nat) : Bytes → Bytes
  | [] => []
  | [a] => m.groupBytes pad a 0 (m.afterHeader 0) (m.afterHeader 1)
  | [a, b] => m.groupBytes pad a b 0 (m.afterHeader 0)
  | [a, b, c] => m.groupBytes pad a b c 0
  | a :: b :: c :: d :: rest => m.groupBytes pad a b c d ++ reading pad rest

theorem groupBytes_length (pad : Nat) (a b c d : UInt8) :
    (m.groupBytes pad a b c d).length = if pad < 2 then 3 else 2 := by
  unfold groupBytes
  split <;> rfl

theorem reading_length (pad : Nat) (input : Bytes) :
    (m.reading pad input).length = (input.length + 3) / 4 * (if pad < 2 then 3 else 2) := by
  induction input using reading.induct with
  | case5 a b c d rest ih =>
      have groups : (rest.length + 4 + 3) / 4 = (rest.length + 3) / 4 + 1 := by omega
      rw [reading, List.length_append, m.groupBytes_length, ih, Nat.add_comm]
      simp only [List.length_cons]
      rw [groups, Nat.add_one_mul]
  | _ => simp [reading, m.groupBytes_length]

theorem b64group_eq {pad outMax : Nat} (atMost : pad ≤ 2) (i : Nat) {out : Bytes}
    (room : out.length < outMax) (a b c d : UInt8) :
    m.b64group pad outMax i out a b c d = (out ++ m.groupBytes pad a b c d).take outMax := by
  have second : i + 4 - pad > i + 1 := by omega
  have third : i + 4 - pad > i + 2 ↔ pad < 2 := by omega
  simp only [b64group, groupBytes, second, third, and_true]
  rw [List.take_append, List.take_of_length_le room.le]
  obtain ⟨left, rfl⟩ : ∃ left, outMax = out.length + (left + 1) :=
    ⟨outMax - out.length - 1, by omega⟩
  rw [Nat.add_sub_cancel_left]
  by_cases padded : pad < 2
  · cases left with
    | zero => simp [padded]
    | succ left => cases left <;> simp [padded]
  · cases left with
    | zero => simp [padded]
    | succ left => cases left <;> simp [padded]

theorem take_take_append (xs ys : Bytes) (n : Nat) :
    (xs.take n ++ ys).take n = (xs ++ ys).take n := by
  rcases Nat.le_total xs.length n with short | long
  · rw [List.take_of_length_le short]
  · rw [List.take_append_of_le_length (by simpa using long),
      List.take_append_of_le_length long, List.take_take, Nat.min_self]

theorem b64loop_eq {pad outMax : Nat} (atMost : pad ≤ 2) (i : Nat) {out : Bytes}
    (room : out.length ≤ outMax) (input : Bytes) :
    m.b64loop pad outMax i out input = (out ++ m.reading pad input).take outMax := by
  by_cases full : out.length = outMax
  · have nothing (more : Bytes) : (out ++ more).take outMax = out := by
      rw [← full, List.take_left]
    rw [nothing]
    unfold b64loop
    split <;> simp [full]
  · have space : out.length < outMax := Nat.lt_of_le_of_ne room full
    match input with
    | [] => simp [b64loop, reading, List.take_of_length_le room]
    | [_] => simp only [b64loop, reading, if_pos space, m.b64group_eq atMost i space]
    | [_, _] => simp only [b64loop, reading, if_pos space, m.b64group_eq atMost i space]
    | [_, _, _] => simp only [b64loop, reading, if_pos space, m.b64group_eq atMost i space]
    | a :: b :: c :: d :: rest =>
        simp only [b64loop, reading, if_pos space, m.b64group_eq atMost i space]
        rw [b64loop_eq atMost (i + 4) (List.length_take_le _ _) rest, take_take_append,
          List.append_assoc]

theorem paddingOf_le (before : UInt8) (input : Bytes) : paddingOf before input ≤ 2 := by
  unfold paddingOf
  split_ifs <;> decide

theorem b64loop_whole (before : UInt8) (input : Bytes) (outMax : Nat) :
    m.b64loop (paddingOf before input) outMax 0 [] input =
      (m.reading (paddingOf before input) input).take outMax := by
  have empty : ([] : Bytes).length ≤ outMax := Nat.zero_le _
  exact m.b64loop_eq (paddingOf_le before input) 0 empty input

theorem cstr_b64decode {before : UInt8} {input : Bytes} (given : input ≠ []) (out : Bytes) :
    cstr (m.b64decode before input out).1 =
      (cstr (m.reading (paddingOf before input) input)).take out.length := by
  simp only [b64decode, if_neg given, b64loop_whole]
  split
  · rename_i short
    have whole : (m.reading (paddingOf before input) input).length < out.length := by
      simpa using short
    rw [List.take_of_length_le whole.le, cstr_append_zero, List.take_of_length_le]
    exact (List.takeWhile_prefix _).length_le.trans whole.le
  · exact cstr_take _ _

theorem b64decode_length (before : UInt8) (input out : Bytes) :
    (m.b64decode before input out).1.length = out.length := by
  unfold b64decode
  split
  · rfl
  · simp only [b64loop_whole]
    split
    · rename_i short
      simp only [List.length_append, List.length_cons, List.length_drop]
      omega
    · rename_i long
      exact Nat.le_antisymm (List.length_take_le _ _) (not_lt.mp long)

/-! ## What stands at each place -/

/-- The number that the character at a place of the input stands for. The places after the end are
those of the terminator and of what comes after it. -/
def sextet (input : Bytes) (i : Nat) : Nat :=
  m.b64index (match input[i]? with
    | some c => c
    | none => if i = input.length then 0 else m.afterHeader (i - input.length - 1))

/-- Byte `k` of what the input spells, `size` bytes a group of four characters. -/
def spelled (size : Nat) (input : Bytes) (k : Nat) : UInt8 :=
  let i := k / size * 4
  let n := m.sextet input i <<< 18 ||| m.sextet input (i + 1) <<< 12 |||
    m.sextet input (i + 2) <<< 6 ||| m.sextet input (i + 3)
  UInt8.ofNat (n >>> (16 - 8 * (k % size)))

def groupSize (pad : Nat) : Nat := if pad < 2 then 3 else 2

theorem groupBytes_getElem? (pad : Nat) (a b c d : UInt8) {k : Nat} (inside : k < groupSize pad) :
    (m.groupBytes pad a b c d)[k]? =
      some (UInt8.ofNat ((m.b64index a <<< 18 ||| m.b64index b <<< 12 ||| m.b64index c <<< 6 |||
        m.b64index d) >>> (16 - 8 * k))) := by
  have low (n : Nat) : UInt8.ofNat (n &&& 0xFF) = UInt8.ofNat n := by
    rw [Nat.and_two_pow_sub_one_eq_mod _ 8]
    exact UInt8.ofNat_mod_size
  simp only [groupBytes, low]
  unfold groupSize at inside
  split_ifs at inside with padded
  · rw [if_pos padded]
    match k, inside with
    | 0, _ => rfl
    | 1, _ => rfl
    | 2, _ => rfl
  · rw [if_neg padded]
    match k, inside with
    | 0, _ => rfl
    | 1, _ => rfl

theorem sextet_group (a b c d : UInt8) (rest : Bytes) (i : Nat) :
    m.sextet (a :: b :: c :: d :: rest) (i + 4) = m.sextet rest i := by
  have place : i + 4 - (rest.length + 4) - 1 = i - rest.length - 1 := by omega
  simp only [sextet, List.getElem?_cons_succ, List.length_cons, Nat.add_right_cancel_iff, place]

theorem spelled_group {size : Nat} (given : 0 < size) (a b c d : UInt8) (rest : Bytes) (k : Nat) :
    m.spelled size (a :: b :: c :: d :: rest) (k + size) = m.spelled size rest k := by
  have group : (k + size) / size * 4 = k / size * 4 + 4 := by
    rw [Nat.add_div_right k given, Nat.add_one_mul]
  have next (j : Nat) : k / size * 4 + 4 + j = k / size * 4 + j + 4 := by omega
  simp only [spelled, group, Nat.add_mod_right, next, sextet_group]

theorem spelled_first (pad : Nat) (input : Bytes) {k : Nat} (inside : k < groupSize pad) :
    m.spelled (groupSize pad) input k = UInt8.ofNat ((m.sextet input 0 <<< 18 |||
      m.sextet input 1 <<< 12 ||| m.sextet input 2 <<< 6 ||| m.sextet input 3) >>>
        (16 - 8 * k)) := by
  simp only [spelled, Nat.div_eq_of_lt inside, Nat.mod_eq_of_lt inside, Nat.zero_mul, Nat.zero_add]

theorem reading_getElem? (pad : Nat) (input : Bytes) {k : Nat}
    (inside : k < (m.reading pad input).length) :
    (m.reading pad input)[k]? = some (m.spelled (groupSize pad) input k) := by
  rw [m.reading_length] at inside
  change k < _ * groupSize pad at inside
  have positive : 0 < groupSize pad := by
    unfold groupSize
    split <;> decide
  induction input using reading.induct generalizing k with
  | case1 => simp at inside
  | case2 a =>
      have first : k < groupSize pad := by simpa using inside
      rw [reading, m.groupBytes_getElem? pad _ _ _ _ first, m.spelled_first pad _ first]
      rfl
  | case3 a b =>
      have first : k < groupSize pad := by simpa using inside
      rw [reading, m.groupBytes_getElem? pad _ _ _ _ first, m.spelled_first pad _ first]
      rfl
  | case4 a b c =>
      have first : k < groupSize pad := by simpa using inside
      rw [reading, m.groupBytes_getElem? pad _ _ _ _ first, m.spelled_first pad _ first]
      rfl
  | case5 a b c d rest ih =>
      have size : (m.groupBytes pad a b c d).length = groupSize pad := m.groupBytes_length pad ..
      rw [reading]
      by_cases first : k < groupSize pad
      · rw [List.getElem?_append_left (size ▸ first), m.groupBytes_getElem? pad _ _ _ _ first,
          m.spelled_first pad _ first]
        rfl
      · obtain ⟨j, rfl⟩ := Nat.exists_eq_add_of_le' (not_lt.mp first)
        have groups : (rest.length + 4 + 3) / 4 = (rest.length + 3) / 4 + 1 := by omega
        simp only [List.length_cons, groups, Nat.add_one_mul] at inside
        have later : (m.groupBytes pad a b c d).length ≤ j + groupSize pad :=
          size.le.trans (Nat.le_add_left ..)
        rw [List.getElem?_append_right later, size, Nat.add_sub_cancel, ih (by omega),
          m.spelled_group positive]

/-! ## Reading what has been encoded -/

theorem b64index_symbol {n : Nat} (small : n < 64) : m.b64index (symbol n) = n := by
  have table : ∀ n < 64, 0 ≤ signedChar (symbol n) ∧
      b64indexTable.getD (signedChar (symbol n)).toNat 0 = n := by decide
  obtain ⟨positive, found⟩ := table n small
  rw [b64index, if_neg (not_lt.mpr positive), found]

theorem b64index_padding : m.b64index padding = 0 := rfl

theorem packed {p q r s : Nat} (hq : q < 64) (hr : r < 64) (hs : s < 64) :
    p <<< 18 ||| q <<< 12 ||| r <<< 6 ||| s = p * 2 ^ 18 + q * 2 ^ 12 + r * 2 ^ 6 + s := by
  have low : r <<< 6 ||| s = r * 2 ^ 6 + s := by
    rw [← Nat.shiftLeft_add_eq_or_of_lt hs, Nat.shiftLeft_eq]
  have middle : q <<< 12 ||| (r * 2 ^ 6 + s) = q * 2 ^ 12 + (r * 2 ^ 6 + s) := by
    rw [← Nat.shiftLeft_add_eq_or_of_lt (by omega), Nat.shiftLeft_eq]
  rw [Nat.or_assoc, Nat.or_assoc, low, middle, ← Nat.shiftLeft_add_eq_or_of_lt (by omega),
    Nat.shiftLeft_eq]
  omega

theorem groupBytes_eq (pad : Nat) {p q r s : Nat} {a b c d : UInt8} (isP : m.b64index a = p)
    (isQ : m.b64index b = q) (isR : m.b64index c = r) (isS : m.b64index d = s) (hq : q < 64)
    (hr : r < 64) (hs : s < 64) :
    m.groupBytes pad a b c d =
      if pad < 2 then [firstByte p q, secondByte q r, thirdByte r s]
      else [firstByte p q, secondByte q r] := by
  have first : UInt8.ofNat ((p * 2 ^ 18 + q * 2 ^ 12 + r * 2 ^ 6 + s) >>> 16) = firstByte p q := by
    rw [firstByte, Nat.shiftRight_eq_div_pow]
    congr 1
    omega
  have second : UInt8.ofNat ((p * 2 ^ 18 + q * 2 ^ 12 + r * 2 ^ 6 + s) >>> 8 &&& 0xFF) =
      secondByte q r := by
    rw [secondByte, Nat.shiftRight_eq_div_pow, Nat.and_two_pow_sub_one_eq_mod _ 8]
    congr 1
    omega
  have third : UInt8.ofNat ((p * 2 ^ 18 + q * 2 ^ 12 + r * 2 ^ 6 + s) &&& 0xFF) =
      thirdByte r s := by
    rw [thirdByte, Nat.and_two_pow_sub_one_eq_mod _ 8]
    congr 1
    omega
  simp only [groupBytes, isP, isQ, isR, isS, packed hq hr hs, first, second, third]

end AuthMemory

theorem paddingOf_append (before : UInt8) (xs : Bytes) {input : Bytes} (two : 2 ≤ input.length) :
    paddingOf before (xs ++ input) = paddingOf before input := by
  have given : input ≠ [] := List.ne_nil_of_length_pos (by omega)
  have shorter : input.dropLast ≠ [] := List.ne_nil_of_length_pos (by simp; omega)
  rw [paddingOf, paddingOf, List.getLast?_append_of_ne_nil _ given,
    List.dropLast_append_of_ne_nil given, ← List.cons_append,
    List.getLast?_append_of_ne_nil _ shorter, ← List.singleton_append,
    List.getLast?_append_of_ne_nil _ shorter]

theorem encode_length (bytes : Bytes) : (encode bytes).length = (bytes.length + 2) / 3 * 4 := by
  induction bytes using encode.induct with
  | case1 => rfl
  | case2 x => simp [encode]
  | case3 x y => simp [encode]
  | case4 x y z rest ih =>
      simp only [encode, List.length_cons, ih]
      omega

theorem paddingOf_encode (before : UInt8) {bytes : Bytes} (given : bytes ≠ []) :
    paddingOf before (encode bytes) = (3 - bytes.length % 3) % 3 := by
  induction bytes using encode.induct with
  | case1 => exact absurd rfl given
  | case2 x => simp [encode, paddingOf, padding]
  | case3 x y =>
      have full := symbol_ne_padding (show y.toNat % 16 * 4 < 64 by omega)
      rw [padding] at full
      simp [encode, paddingOf, padding, full]
  | case4 x y z rest ih =>
      by_cases last : rest = []
      · subst last
        have full := symbol_ne_padding (show z.toNat % 64 < 64 by omega)
        rw [padding] at full
        simp [encode, paddingOf, full]
      · have long : 2 ≤ (encode rest).length := by
          have := List.length_pos_of_ne_nil last
          rw [encode_length]
          omega
        have same := paddingOf_append before [symbol (x.toNat / 4),
          symbol (x.toNat % 4 * 16 + y.toNat / 16), symbol (y.toNat % 16 * 4 + z.toNat / 64),
          symbol (z.toNat % 64)] long
        have residue : (x :: y :: z :: rest).length % 3 = rest.length % 3 := by
          simp only [List.length_cons]
          omega
        rw [residue, ← ih last, ← same]
        rfl

def withoutThirds : Bytes → Bytes
  | x :: y :: _ :: rest => x :: y :: withoutThirds rest
  | rest => rest

namespace AuthMemory

variable (m : AuthMemory)

theorem reading_encode (pad : Nat) (bytes : Bytes) :
    ∃ zeros, m.reading pad (encode bytes) =
      (if pad < 2 then bytes else withoutThirds bytes) ++ List.replicate zeros 0 := by
  induction bytes using encode.induct with
  | case1 => exact ⟨0, by simp [encode, reading, withoutThirds]⟩
  | case2 x =>
      have group := m.groupBytes_eq pad
        (m.b64index_symbol (show x.toNat / 4 < 64 by have := x.toNat_lt; omega))
        (m.b64index_symbol (show x.toNat % 4 * 16 < 64 by omega)) m.b64index_padding
        m.b64index_padding (by omega) (by omega) (by omega)
      rw [firstByte_last, secondByte_spare, thirdByte_zero] at group
      rw [encode, reading, reading, group]
      by_cases padded : pad < 2
      · exact ⟨2, by simp [padded]⟩
      · exact ⟨1, by simp [padded, withoutThirds]⟩
  | case3 x y =>
      have := x.toNat_lt
      have := y.toNat_lt
      have group := m.groupBytes_eq pad
        (m.b64index_symbol (show x.toNat / 4 < 64 by omega))
        (m.b64index_symbol (show x.toNat % 4 * 16 + y.toNat / 16 < 64 by omega))
        (m.b64index_symbol (show y.toNat % 16 * 4 < 64 by omega)) m.b64index_padding (by omega)
        (by omega) (by omega)
      rw [firstByte_spread, secondByte_last, thirdByte_spare] at group
      rw [encode, reading, reading, group]
      by_cases padded : pad < 2
      · exact ⟨1, by simp [padded]⟩
      · exact ⟨0, by simp [padded, withoutThirds]⟩
  | case4 x y z rest ih =>
      have := x.toNat_lt
      have := y.toNat_lt
      have := z.toNat_lt
      have group := m.groupBytes_eq pad
        (m.b64index_symbol (show x.toNat / 4 < 64 by omega))
        (m.b64index_symbol (show x.toNat % 4 * 16 + y.toNat / 16 < 64 by omega))
        (m.b64index_symbol (show y.toNat % 16 * 4 + z.toNat / 64 < 64 by omega))
        (m.b64index_symbol (show z.toNat % 64 < 64 by omega)) (by omega) (by omega) (by omega)
      rw [firstByte_spread, secondByte_spread, thirdByte_spread] at group
      obtain ⟨zeros, later⟩ := ih
      refine ⟨zeros, ?_⟩
      rw [encode, reading, group, later]
      by_cases padded : pad < 2
      · simp [padded]
      · simp [padded, withoutThirds]

end AuthMemory
end ProxyServer
