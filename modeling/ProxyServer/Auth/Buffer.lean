import ProxyServer.Auth.BasicAuth

namespace ProxyServer

theorem cstr_terminated {buf : Bytes} (short : (cstr buf).length < buf.length) :
    cstr buf ++ [0] <+: buf := by
  have split : cstr buf ++ buf.dropWhile (· != 0) = buf := List.takeWhile_append_dropWhile
  cases rest : buf.dropWhile (· != 0) with
  | nil =>
      rw [rest, List.append_nil] at split
      rw [split] at short
      exact absurd short (lt_irrefl _)
  | cons c more =>
      have zero : c = 0 := by
        have first := List.head?_dropWhile_not (· != 0) buf
        simpa [rest] using first
      rw [rest, zero] at split
      exact ⟨more, by simpa using split⟩

theorem cstr_length_lt {bytes : Bytes} {n : Nat} :
    (cstr bytes).length < n ↔ bytes.length < n ∨ 0 ∈ bytes.take n := by
  have start : cstr bytes <+: bytes := List.takeWhile_prefix _
  constructor
  · intro short
    by_contra! long
    have whole : (cstr bytes).take n = bytes.take n := by
      rw [← cstr_take, cstr_of_string long.2]
    have sizes := congrArg List.length whole
    rw [List.length_take_of_le long.1, List.length_take] at sizes
    omega
  · intro given
    by_contra! long
    rcases given with short | inside
    · exact absurd (long.trans start.length_le) (not_le.mpr short)
    · have early : bytes.take n <+: cstr bytes :=
        List.prefix_of_prefix_length_le (List.take_prefix n bytes) start
          ((List.length_take_le n bytes).trans long)
      exact zero_notMem_cstr bytes (early.subset inside)

namespace AuthMemory

variable (m : AuthMemory)

def withDecoded (decoded : Bytes) (size : decoded.length = maxCredsLen) : AuthMemory :=
  { m with decoded := decoded, decoded_size := size }

theorem reading_withDecoded (decoded : Bytes) (size : decoded.length = maxCredsLen) (pad : Nat)
    (input : Bytes) : (m.withDecoded decoded size).reading pad input = m.reading pad input := by
  induction input using reading.induct with
  | case5 a b c d rest ih =>
      rw [reading, reading, ih]
      rfl
  | _ => rfl

theorem credentials_withDecoded {token : Bytes} (given : token ≠ []) (decoded : Bytes)
    (size : decoded.length = maxCredsLen) :
    (m.withDecoded decoded size).credentials token =
      (cstr (m.reading (paddingOf 32 token) token)).take maxCredsLen := by
  rw [credentials, cstr_b64decode _ given, reading_withDecoded, AuthMemory.decoded_size]

theorem b64decode_nil (before : UInt8) (out : Bytes) : m.b64decode before [] out = (out, 0) := rfl

def WritesString (token : Bytes) : Prop :=
  ∃ s, 0 ∉ s ∧ ∀ buffer : Bytes, buffer.length = maxCredsLen →
    s ++ [0] <+: (m.b64decode 32 token buffer).1

/-- The bytes of the token, three a group, or two when it ends in two paddings, leave room for the
terminator, or one of those that fit is zero. -/
def FitsBuffer (token : Bytes) : Prop :=
  (token.length + 3) / 4 * (if paddingOf 32 token < 2 then 3 else 2) < maxCredsLen ∨
    0 ∈ (m.reading (paddingOf 32 token) token).take maxCredsLen

theorem fitsBuffer_iff {token : Bytes} :
    m.FitsBuffer token ↔ (cstr (m.reading (paddingOf 32 token) token)).length < maxCredsLen := by
  rw [cstr_length_lt, reading_length, FitsBuffer]

theorem writesString_iff {token : Bytes} :
    m.WritesString token ↔ token ≠ [] ∧ m.FitsBuffer token := by
  constructor
  · intro written
    obtain ⟨s, string, ends⟩ := written
    have given : token ≠ [] := by
      intro empty
      have ones := ends (List.replicate maxCredsLen 1) List.length_replicate
      have one : (0 : UInt8) ∈ List.replicate maxCredsLen 1 := by
        rw [empty, b64decode_nil] at ones
        exact ones.subset (List.mem_append_right s (List.mem_singleton_self 0))
      exact absurd (List.eq_of_mem_replicate one) (by decide)
    refine ⟨given, m.fitsBuffer_iff.mpr ?_⟩
    have ending := ends m.decoded m.decoded_size
    have compared : cstr (m.b64decode 32 token m.decoded).1 = s := by
      obtain ⟨rest, same⟩ := ending
      rw [← same, List.append_assoc, List.singleton_append, cstr_append_zero,
        cstr_of_string string]
    have room := ending.length_le
    rw [m.b64decode_length, m.decoded_size, List.length_append, List.length_singleton] at room
    rw [m.cstr_b64decode given, m.decoded_size] at compared
    have sizes := congrArg List.length compared
    rw [List.length_take] at sizes
    omega
  · intro condition
    obtain ⟨given, fits⟩ := condition
    have short := m.fitsBuffer_iff.mp fits
    refine ⟨cstr (m.reading (paddingOf 32 token) token), zero_notMem_cstr _, ?_⟩
    intro buffer size
    have compared : cstr (m.b64decode 32 token buffer).1 = _ := m.cstr_b64decode given buffer
    rw [size, List.take_of_length_le short.le] at compared
    rw [← compared]
    apply cstr_terminated
    rw [m.b64decode_length, compared, size]
    exact short

end AuthMemory

def Compares (enabled : Bool) (users : List AuthUser) (header : Option Bytes) (token : Bytes) :
    Prop :=
  enabled = true ∧ users ≠ [] ∧
    ∃ value, header = some value ∧ ascii "Basic " <+: value ∧ basicToken value = token

theorem checkBasicAuth_congr {enabled : Bool} {users : List AuthUser} {header : Option Bytes}
    {m n : AuthMemory}
    (same : ∀ token, Compares enabled users header token →
      m.credentials token = n.credentials token) :
    checkBasicAuth enabled users m header = checkBasicAuth enabled users n header := by
  rcases enabled with _ | _
  · simp [checkBasicAuth]
  · rcases header with _ | value
    · simp [checkBasicAuth]
    · rw [Bool.eq_iff_iff, checkBasicAuth_iff, checkBasicAuth_iff]
      apply and_congr_right
      intro basic
      apply exists_congr
      intro user
      apply and_congr_right
      intro member
      rw [same (basicToken value) ⟨rfl, List.ne_nil_of_mem member, value, rfl, basic, rfl⟩]

def EndsAlike (enabled : Bool) (users : List AuthUser) (m : AuthMemory) (header : Option Bytes) :
    Prop :=
  ∀ (one two : Bytes) (sizeOne : one.length = maxCredsLen) (sizeTwo : two.length = maxCredsLen),
    checkBasicAuth enabled users (m.withDecoded one sizeOne) header =
      checkBasicAuth enabled users (m.withDecoded two sizeTwo) header

theorem endsAlike_iff {enabled : Bool} {users : List AuthUser} {m : AuthMemory}
    {header : Option Bytes} :
    EndsAlike enabled users m header ↔
      ∀ token, Compares enabled users header token → token ≠ [] := by
  constructor
  · rintro alike token ⟨rfl, stored, value, rfl, basic, rfl⟩ noToken
    obtain ⟨user, more, rfl⟩ := List.exists_cons_of_ne_nil stored
    have compared (buffer : Bytes) (size : buffer.length = maxCredsLen) :
        checkBasicAuth true (user :: more) (m.withDecoded buffer size) (some value) = true ↔
          ∃ other ∈ user :: more, cstr buffer = other.line := by
      rw [checkBasicAuth_iff, noToken, AuthMemory.credentials, AuthMemory.b64decode_nil]
      exact and_iff_right basic
    have fits : user.line.length < maxCredsLen := user.fits
    have accepted := (compared
      (user.line ++ 0 :: List.replicate (maxCredsLen - user.line.length - 1) 0)
      (by simp; omega)).mpr
        ⟨user, by simp, by rw [cstr_append_zero, cstr_of_string user.string]⟩
    rw [alike _ (List.replicate maxCredsLen 0) _ List.length_replicate, compared] at accepted
    obtain ⟨other, member, same⟩ := accepted
    exact other.nonempty same.symm
  · intro tokens one two sizeOne sizeTwo
    apply checkBasicAuth_congr
    intro token compared
    have given := tokens token compared
    rw [m.credentials_withDecoded given, m.credentials_withDecoded given]

def HeaderDecides (enabled : Bool) (users : List AuthUser) (m : AuthMemory)
    (header : Option Bytes) : Prop :=
  EndsAlike enabled users m header ∧
    ∀ token, Compares enabled users header token → m.WritesString token

theorem headerDecides_iff (enabled : Bool) (users : List AuthUser) (m : AuthMemory)
    (header : Option Bytes) :
    HeaderDecides enabled users m header ↔
      ∀ token, Compares enabled users header token → token ≠ [] ∧ m.FitsBuffer token := by
  constructor
  · intro decides token compared
    exact m.writesString_iff.mp (decides.2 token compared)
  · intro condition
    constructor
    · exact endsAlike_iff.mpr fun token compared => (condition token compared).1
    · intro token compared
      exact m.writesString_iff.mpr (condition token compared)

def leftover : Bytes := ascii "u:p" ++ List.replicate 253 0

theorem leftover_size : leftover.length = maxCredsLen := by
  rw [leftover, List.length_append, List.length_replicate]
  rfl

theorem leftover_accepted :
    let user : AuthUser := ⟨ascii "u:p", by decide, by decide, by decide⟩
    checkBasicAuth true [user]
        (sampleMemory.withDecoded (List.replicate maxCredsLen 0) List.length_replicate)
        (some (ascii "Basic ")) = false ∧
      checkBasicAuth true [user] (sampleMemory.withDecoded leftover leftover_size)
        (some (ascii "Basic ")) = true ∧
      ¬ HeaderDecides true [user] sampleMemory (some (ascii "Basic ")) := by
  have noToken : basicToken (ascii "Basic ") = [] := by decide +kernel
  refine ⟨by decide +kernel, by decide +kernel, ?_⟩
  intro decides
  have written := decides.2 []
    ⟨rfl, List.cons_ne_nil _ _, ascii "Basic ", rfl, List.prefix_refl _, noToken⟩
  exact ((AuthMemory.writesString_iff sampleMemory).mp written).1 rfl

end ProxyServer
