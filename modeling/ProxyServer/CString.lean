import Mathlib.Algebra.Order.Ring.Int
import Mathlib.Data.List.Infix
import Mathlib.Data.List.TakeWhile

/-!
# Bytes and C strings

A buffer is the list of its bytes. A C string is the list of the bytes before its terminator, so
it holds no zero byte; `cstr` reads one from a buffer. The functions are those of the C library in
the "C" locale, which the server never changes.
-/

namespace ProxyServer

abbrev Bytes := List UInt8

/-- The members of a list are looked at, and not all values of a finite type. -/
instance (priority := high) decidableMembers {α : Type*} (p : α → Prop) [DecidablePred p]
    (l : List α) : Decidable (∀ a ∈ l, p a) :=
  List.decidableBAll p l

def ascii (s : String) : Bytes := s.toList.map fun c => c.toNat.toUInt8

def cstr (buf : Bytes) : Bytes := buf.takeWhile (· != 0)

def isspace (c : UInt8) : Bool := c == 32 || (9 ≤ c && c ≤ 13)

def isdigit (c : UInt8) : Bool := 48 ≤ c && c ≤ 57

def tolower (c : UInt8) : UInt8 := if 65 ≤ c && c ≤ 90 then c + 32 else c

/-- A `char` as the value it has on the platforms where it is signed. -/
def signedChar (c : UInt8) : Int := if c < 128 then c.toNat else (c.toNat : Int) - 256

def toInt (n : Int) : Int := n.bmod (2 ^ 32)

def toSize (n : Int) : Nat := (n % 2 ^ 64).toNat

theorem eq_of_tolower_eq {c d : UInt8} (mark : d < 97) (same : tolower c = d) : c = d := by
  rw [tolower] at same
  split at same
  · rename_i upper
    simp only [Bool.and_eq_true, decide_eq_true_eq, UInt8.le_iff_toNat_le] at upper
    rw [UInt8.lt_iff_toNat_lt, ← same] at mark
    simp at mark upper
    omega
  · exact same

/-- A literal is an `ofList` to the kernel; this way it need not be encoded and decoded. -/
theorem ascii_ofList (cs : List Char) :
    ascii (String.ofList cs) = cs.map fun c => c.toNat.toUInt8 := by
  rw [ascii, String.toList_ofList]

theorem toInt_length {n : Nat} : toInt n = n ↔ n < 2 ^ 31 := by
  rw [toInt, Int.bmod_def]
  split <;> omega

theorem cstr_of_string {s : Bytes} (string : 0 ∉ s) : cstr s = s := by
  rw [cstr, List.takeWhile_eq_self_iff]
  intro c inside
  simp only [bne_iff_ne, ne_eq]
  exact fun zero => string (zero ▸ inside)

theorem zero_notMem_cstr (buf : Bytes) : 0 ∉ cstr buf := by
  intro inside
  simpa using List.mem_takeWhile_imp inside

theorem cstr_append_zero (xs ys : Bytes) : cstr (xs ++ 0 :: ys) = cstr xs := by
  rw [cstr, cstr, List.takeWhile_append]
  split
  · rename_i all
    simp [((List.takeWhile_prefix (· != 0)).eq_of_length all)]
  · rfl

theorem cstr_append {xs : Bytes} (string : 0 ∉ xs) (ys : Bytes) :
    cstr (xs ++ ys) = xs ++ cstr ys :=
  List.takeWhile_append_of_pos fun c inside => by
    simpa using fun zero : c = 0 => string (zero ▸ inside)

theorem cstr_take (xs : Bytes) (n : Nat) : cstr (xs.take n) = (cstr xs).take n :=
  List.take_takeWhile.symm

/-- The rest of `hay` from the first occurrence of `needle`: `memmem`, and `strstr` when both are
C strings. -/
def memmem (hay needle : Bytes) : Option Bytes := hay.tails.find? needle.isPrefixOf

def strcasestr (hay needle : Bytes) : Option Bytes :=
  hay.tails.find? fun rest => (needle.map tolower).isPrefixOf (rest.map tolower)

def strtok (sep : UInt8) (s : Bytes) : List Bytes := (s.splitOn sep).filter (· != [])

theorem memmem_suffix {hay needle rest : Bytes} (found : memmem hay needle = some rest) :
    rest <:+ hay :=
  (List.mem_tails _ _).mp (List.mem_of_find?_eq_some found)

theorem memmem_starts {hay needle rest : Bytes} (found : memmem hay needle = some rest) :
    needle <+: rest :=
  List.isPrefixOf_iff_prefix.mp (List.find?_some found)

theorem memmem_eq_none {hay needle : Bytes} : memmem hay needle = none ↔ ¬ needle <:+: hay := by
  simp only [memmem, List.find?_eq_none, List.mem_tails, List.isPrefixOf_iff_prefix]
  constructor
  · intro absent given
    obtain ⟨before, after, rfl⟩ := given
    exact absent (needle ++ after) (by simp [List.suffix_append]) (List.prefix_append _ _)
  · intro absent rest suffix isPrefix
    exact absent (isPrefix.isInfix.trans suffix.isInfix)

theorem memmem_cons (c : UInt8) (hay needle : Bytes) :
    memmem (c :: hay) needle =
      if needle.isPrefixOf (c :: hay) then some (c :: hay) else memmem hay needle := by
  rw [memmem, List.tails_cons, List.find?_cons]
  split <;> simp_all [memmem]

theorem memmem_append {hay needle rest : Bytes} (found : memmem hay needle = some rest)
    (more : Bytes) : memmem (hay ++ more) needle = some (rest ++ more) := by
  induction hay with
  | nil =>
      have here := memmem_starts found
      have atEnd := memmem_suffix found
      rw [List.suffix_nil] at atEnd
      subst atEnd
      rw [List.prefix_nil] at here
      subst here
      cases more <;> simp [memmem]
  | cons c hay ih =>
      rw [memmem_cons] at found
      rw [List.cons_append, memmem_cons, ← List.cons_append]
      split at found
      · rename_i here
        cases found
        have starts := List.isPrefixOf_iff_prefix.mp here
        rw [if_pos (List.isPrefixOf_iff_prefix.mpr (starts.trans (List.prefix_append _ more)))]
      · rename_i here
        -- An occurrence that ran on into `more` would be longer than the one found in `hay`.
        have short : needle.length ≤ (c :: hay).length :=
          ((memmem_starts found).length_le.trans (memmem_suffix found).length_le).trans
            (Nat.le_succ _)
        rw [if_neg, ih found]
        intro starts
        apply here
        rw [List.isPrefixOf_iff_prefix] at starts ⊢
        exact List.prefix_of_prefix_length_le starts (List.prefix_append _ _) short

theorem memmem_cut {before needle rest : Bytes}
    (found : memmem (before ++ (needle ++ rest)) needle = some (needle ++ rest)) (more : Bytes) :
    memmem (before ++ (needle ++ more)) needle = some (needle ++ more) := by
  induction before with
  | nil =>
      rw [List.nil_append]
      have here : needle.isPrefixOf (needle ++ more) = true :=
        List.isPrefixOf_iff_prefix.mpr (List.prefix_append _ _)
      cases whole : needle ++ more with
      | nil => simp_all [memmem]
      | cons c s =>
          rw [whole] at here
          rw [memmem_cons, if_pos here]
  | cons c before ih =>
      rw [List.cons_append, memmem_cons] at found ⊢
      split at found
      · have lengths := congrArg List.length (Option.some.inj found)
        simp at lengths
        omega
      · rename_i notHere
        rw [if_neg, ih found]
        rw [List.isPrefixOf_iff_prefix] at notHere ⊢
        intro starts
        have short : needle <+: c :: before ++ needle :=
          List.prefix_of_prefix_length_le starts ⟨more, by simp⟩ (by simp; omega)
        exact notHere (short.trans ⟨rest, by simp⟩)

theorem strcasestr_isSome {hay needle : Bytes} :
    (strcasestr hay needle).isSome = true ↔ needle.map tolower <:+: hay.map tolower := by
  simp only [strcasestr, List.find?_isSome, List.mem_tails, List.isPrefixOf_iff_prefix]
  constructor
  · rintro ⟨rest, suffix, starts⟩
    exact starts.isInfix.trans (suffix.map tolower).isInfix
  · rintro ⟨before, after, whole⟩
    obtain ⟨front, rest, rfl, rfl, same⟩ := List.map_eq_append_iff.mp
      ((List.append_assoc ..).symm.trans whole).symm
    exact ⟨rest, List.suffix_append _ _, after, same.symm⟩

/-- `strtol` in base ten, with its saturation at the ends of `long`. -/
def strtol (s : Bytes) : Int :=
  let s := s.dropWhile isspace
  let (negative, s) := match s with
    | 45 :: rest => (true, rest)
    | 43 :: rest => (false, rest)
    | _ => (false, s)
  let value := (s.takeWhile isdigit).foldl (fun n c => n * 10 + (c.toNat - 48)) (0 : Nat)
  if negative then max (-(value : Int)) (-2 ^ 63) else min (value : Int) (2 ^ 63 - 1)

def numberOf (s : Bytes) : Int :=
  let s := s.dropWhile isspace
  let (negative, s) := match s with
    | 45 :: rest => (true, rest)
    | 43 :: rest => (false, rest)
    | _ => (false, s)
  let value := (s.takeWhile isdigit).foldl (fun n c => n * 10 + (c.toNat - 48)) (0 : Nat)
  if negative then -(value : Int) else value

def ERANGE : Int := 34

/-- `errno` after a call of `strtol`, which sets it only for a number that is out of range. -/
def strtolErrno (errno : Int) (s : Bytes) : Int :=
  if strtol s = numberOf s then errno else ERANGE

def atoi (s : Bytes) : Int := toInt (strtol s)

end ProxyServer
