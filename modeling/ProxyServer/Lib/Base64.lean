import Mathlib.Algebra.Order.Ring.Int
import Mathlib.Data.List.Infix

/-!
# Base64

The standard alphabet with padding. Decoding is strict: the bits that padding leaves over are zero.
-/

namespace ProxyServer.Lib.Base64

def padding : UInt8 := 61

def symbol (n : Nat) : UInt8 :=
  UInt8.ofNat (if n < 26 then n + 65 else if n < 52 then n + 71 else if n < 62 then n - 4
    else if n = 62 then 43 else 47)

def value (c : UInt8) : Option Nat := (List.range 64).find? fun n => symbol n == c

def firstByte (p q : Nat) : UInt8 := UInt8.ofNat (p * 4 + q / 16)

def secondByte (q r : Nat) : UInt8 := UInt8.ofNat (q % 16 * 16 + r / 4)

def thirdByte (r s : Nat) : UInt8 := UInt8.ofNat (r % 4 * 64 + s)

def encode : List UInt8 → List UInt8
  | [] => []
  | [x] => [symbol (x.toNat / 4), symbol (x.toNat % 4 * 16), padding, padding]
  | [x, y] =>
      [symbol (x.toNat / 4), symbol (x.toNat % 4 * 16 + y.toNat / 16),
        symbol (y.toNat % 16 * 4), padding]
  | x :: y :: z :: rest =>
      symbol (x.toNat / 4) :: symbol (x.toNat % 4 * 16 + y.toNat / 16) ::
        symbol (y.toNat % 16 * 4 + z.toNat / 64) :: symbol (z.toNat % 64) :: encode rest

theorem encode_starts {bytes : List UInt8} (given : bytes ≠ []) :
    ∃ n < 64, ∃ rest, encode bytes = symbol n :: rest := by
  rcases bytes with _ | ⟨x, _ | ⟨y, _ | ⟨z, rest⟩⟩⟩
  · exact absurd rfl given
  all_goals exact ⟨x.toNat / 4, by have := x.toNat_lt; omega, _, rfl⟩

def decodePadded (a b c d : UInt8) : Option (List UInt8) := do
  let p ← value a
  let q ← value b
  if c = padding then
    if d = padding ∧ q % 16 = 0 then some [firstByte p q] else none
  else do
    let r ← value c
    if d = padding ∧ r % 4 = 0 then some [firstByte p q, secondByte q r] else none

def decodeGroup (a b c d : UInt8) : Option (List UInt8) := do
  let p ← value a
  let q ← value b
  let r ← value c
  let s ← value d
  some [firstByte p q, secondByte q r, thirdByte r s]

def decode : List UInt8 → Option (List UInt8)
  | [] => some []
  | a :: b :: c :: d :: rest =>
      if d = padding then
        if rest = [] then decodePadded a b c d else none
      else do
        let group ← decodeGroup a b c d
        let more ← decode rest
        some (group ++ more)
  | _ => none

theorem value_symbol {n : Nat} (small : n < 64) : value (symbol n) = some n := by
  have all : ∀ n < 64, value (symbol n) = some n := by decide
  exact all n small

theorem value_lt {c : UInt8} {n : Nat} (found : value c = some n) : n < 64 :=
  List.mem_range.mp (List.mem_of_find?_eq_some found)

theorem symbol_value {c : UInt8} {n : Nat} (found : value c = some n) : symbol n = c := by
  simpa using List.find?_some found

theorem value_padding : value padding = none := by decide

theorem symbol_ne_padding {n : Nat} (small : n < 64) : symbol n ≠ padding := by
  intro same
  have found := value_symbol small
  simp [same, value_padding] at found

/-! ## Groups of bytes and of symbols -/

theorem firstByte_spread (x y : UInt8) :
    firstByte (x.toNat / 4) (x.toNat % 4 * 16 + y.toNat / 16) = x := by
  have := y.toNat_lt
  rw [firstByte, show x.toNat / 4 * 4 + (x.toNat % 4 * 16 + y.toNat / 16) / 16 = x.toNat by omega]
  exact UInt8.ofNat_toNat

theorem secondByte_spread (x y z : UInt8) :
    secondByte (x.toNat % 4 * 16 + y.toNat / 16) (y.toNat % 16 * 4 + z.toNat / 64) = y := by
  have := y.toNat_lt
  have := z.toNat_lt
  rw [secondByte, show (x.toNat % 4 * 16 + y.toNat / 16) % 16 * 16 +
    (y.toNat % 16 * 4 + z.toNat / 64) / 4 = y.toNat by omega]
  exact UInt8.ofNat_toNat

theorem thirdByte_spread (y z : UInt8) :
    thirdByte (y.toNat % 16 * 4 + z.toNat / 64) (z.toNat % 64) = z := by
  have := z.toNat_lt
  rw [thirdByte, show (y.toNat % 16 * 4 + z.toNat / 64) % 4 * 64 + z.toNat % 64 = z.toNat by omega]
  exact UInt8.ofNat_toNat

theorem firstByte_last (x : UInt8) : firstByte (x.toNat / 4) (x.toNat % 4 * 16) = x := by
  simpa using firstByte_spread x 0

theorem secondByte_last (x y : UInt8) :
    secondByte (x.toNat % 4 * 16 + y.toNat / 16) (y.toNat % 16 * 4) = y := by
  simpa using secondByte_spread x y 0

theorem secondByte_spare (x : UInt8) : secondByte (x.toNat % 4 * 16) 0 = 0 := by
  rw [secondByte, show x.toNat % 4 * 16 % 16 * 16 + 0 / 4 = 0 by omega]
  rfl

theorem thirdByte_spare (y : UInt8) : thirdByte (y.toNat % 16 * 4) 0 = 0 := by
  rw [thirdByte, show y.toNat % 16 * 4 % 4 * 64 + 0 = 0 by omega]
  rfl

theorem thirdByte_zero : thirdByte 0 0 = 0 := rfl

/-! ## Decoding undoes encoding -/

theorem decodePadded_one (x : UInt8) :
    decodePadded (symbol (x.toNat / 4)) (symbol (x.toNat % 4 * 16)) padding padding =
      some [x] := by
  have := x.toNat_lt
  simp [decodePadded, value_symbol (show x.toNat / 4 < 64 by omega),
    value_symbol (show x.toNat % 4 * 16 < 64 by omega), firstByte_last]

theorem decodePadded_two (x y : UInt8) :
    decodePadded (symbol (x.toNat / 4)) (symbol (x.toNat % 4 * 16 + y.toNat / 16))
      (symbol (y.toNat % 16 * 4)) padding = some [x, y] := by
  have := x.toNat_lt
  have := y.toNat_lt
  simp [decodePadded, value_symbol (show x.toNat / 4 < 64 by omega),
    value_symbol (show x.toNat % 4 * 16 + y.toNat / 16 < 64 by omega),
    value_symbol (show y.toNat % 16 * 4 < 64 by omega),
    symbol_ne_padding (show y.toNat % 16 * 4 < 64 by omega), firstByte_spread, secondByte_last]

theorem decodeGroup_three (x y z : UInt8) :
    decodeGroup (symbol (x.toNat / 4)) (symbol (x.toNat % 4 * 16 + y.toNat / 16))
      (symbol (y.toNat % 16 * 4 + z.toNat / 64)) (symbol (z.toNat % 64)) = some [x, y, z] := by
  have := x.toNat_lt
  have := y.toNat_lt
  have := z.toNat_lt
  simp [decodeGroup, value_symbol (show x.toNat / 4 < 64 by omega),
    value_symbol (show x.toNat % 4 * 16 + y.toNat / 16 < 64 by omega),
    value_symbol (show y.toNat % 16 * 4 + z.toNat / 64 < 64 by omega),
    value_symbol (show z.toNat % 64 < 64 by omega), firstByte_spread, secondByte_spread,
    thirdByte_spread]

theorem decode_encode (bytes : List UInt8) : decode (encode bytes) = some bytes := by
  induction bytes using encode.induct with
  | case1 => rfl
  | case2 x => simp [encode, decode, decodePadded_one]
  | case3 x y => simp [encode, decode, decodePadded_two]
  | case4 x y z rest ih =>
      have full : symbol (z.toNat % 64) ≠ padding := symbol_ne_padding (by omega)
      simp [encode, decode, full, decodeGroup_three, ih]

/-! ## Encoding undoes decoding -/

theorem firstByte_toNat {p q : Nat} (hp : p < 64) (hq : q < 64) :
    (firstByte p q).toNat = p * 4 + q / 16 := by
  rw [firstByte, UInt8.toNat_ofNat', Nat.mod_eq_of_lt (by omega)]

theorem secondByte_toNat {q r : Nat} (hr : r < 64) :
    (secondByte q r).toNat = q % 16 * 16 + r / 4 := by
  rw [secondByte, UInt8.toNat_ofNat', Nat.mod_eq_of_lt (by omega)]

theorem thirdByte_toNat {r s : Nat} (hs : s < 64) : (thirdByte r s).toNat = r % 4 * 64 + s := by
  rw [thirdByte, UInt8.toNat_ofNat', Nat.mod_eq_of_lt (by omega)]

theorem encode_decodePadded {a b c d : UInt8} {bytes : List UInt8} (padded : d = padding)
    (found : decodePadded a b c d = some bytes) : encode bytes = [a, b, c, d] := by
  simp only [decodePadded, Option.bind_eq_bind, Option.bind_eq_some_iff] at found
  obtain ⟨p, isP, q, isQ, found⟩ := found
  have hp := value_lt isP
  have hq := value_lt isQ
  by_cases one : c = padding
  · rw [if_pos one] at found
    split at found
    · rename_i spare
      cases found
      rw [encode, firstByte_toNat hp hq, show (p * 4 + q / 16) / 4 = p by omega,
        show (p * 4 + q / 16) % 4 * 16 = q by omega, symbol_value isP, symbol_value isQ, one, padded]
    · cases found
  · rw [if_neg one] at found
    obtain ⟨r, isR, found⟩ := Option.bind_eq_some_iff.mp found
    have hr := value_lt isR
    split at found
    · rename_i spare
      cases found
      rw [encode, firstByte_toNat hp hq, secondByte_toNat hr,
        show (p * 4 + q / 16) / 4 = p by omega,
        show (p * 4 + q / 16) % 4 * 16 + (q % 16 * 16 + r / 4) / 16 = q by omega,
        show (q % 16 * 16 + r / 4) % 16 * 4 = r by omega, symbol_value isP, symbol_value isQ,
        symbol_value isR, padded]
    · cases found

theorem encode_decodeGroup {a b c d : UInt8} {group more : List UInt8}
    (found : decodeGroup a b c d = some group) :
    encode (group ++ more) = a :: b :: c :: d :: encode more := by
  simp only [decodeGroup, Option.bind_eq_bind, Option.bind_eq_some_iff] at found
  obtain ⟨p, isP, q, isQ, r, isR, s, isS, found⟩ := found
  cases found
  have hp := value_lt isP
  have hq := value_lt isQ
  have hr := value_lt isR
  have hs := value_lt isS
  rw [List.cons_append, List.cons_append, List.cons_append, List.nil_append, encode,
    firstByte_toNat hp hq, secondByte_toNat hr, thirdByte_toNat hs,
    show (p * 4 + q / 16) / 4 = p by omega,
    show (p * 4 + q / 16) % 4 * 16 + (q % 16 * 16 + r / 4) / 16 = q by omega,
    show (q % 16 * 16 + r / 4) % 16 * 4 + (r % 4 * 64 + s) / 64 = r by omega,
    show (r % 4 * 64 + s) % 64 = s by omega, symbol_value isP, symbol_value isQ, symbol_value isR,
    symbol_value isS]

theorem encode_of_decode {text bytes : List UInt8} (decoded : decode text = some bytes) :
    encode bytes = text := by
  induction text using decode.induct generalizing bytes with
  | case1 =>
      cases decoded
      rfl
  | case2 a b c =>
      rw [decode, if_pos rfl, if_pos rfl] at decoded
      exact encode_decodePadded rfl decoded
  | case3 a b c rest more =>
      simp [decode, more] at decoded
  | case4 a b c d rest full ih =>
      simp only [decode, if_neg full, Option.bind_eq_bind, Option.bind_eq_some_iff] at decoded
      obtain ⟨group, isGroup, others, isRest, same⟩ := decoded
      cases same
      rw [encode_decodeGroup isGroup, ih isRest]
  | case5 text nonempty short =>
      simp [decode] at decoded

theorem decode_eq_some {text bytes : List UInt8} : decode text = some bytes ↔ text = encode bytes := by
  constructor
  · intro decoded
    exact (encode_of_decode decoded).symm
  · intro encoded
    rw [encoded, decode_encode]

end ProxyServer.Lib.Base64
