import ProxyServer.Auth.Base64Decode

namespace ProxyServer
open Lib.Base64

structure AuthUser where
  line : Bytes
  nonempty : line ≠ []
  fits : line.length < maxCredsLen
  string : 0 ∉ line

def basicToken (header : Bytes) : Bytes := (header.drop 6).dropWhile (· == 32)

def checkBasicAuth (enabled : Bool) (users : List AuthUser) (m : AuthMemory)
    (header : Option Bytes) : Bool :=
  if enabled = false then true
  else match header with
    | none => false
    | some header =>
        if (ascii "Basic ").isPrefixOf header = false then false
        else
          -- the byte before the token is a space, of the prefix or one that is skipped
          let decoded := (m.b64decode 32 (basicToken header) m.decoded).1
          users.any fun user => cstr decoded == user.line

variable (m : AuthMemory)

def AuthMemory.credentials (token : Bytes) : Bytes := cstr (m.b64decode 32 token m.decoded).1

theorem checkBasicAuth_iff {users : List AuthUser} {header : Bytes} :
    checkBasicAuth true users m (some header) = true ↔
      ascii "Basic " <+: header ∧
        ∃ user ∈ users, m.credentials (basicToken header) = user.line := by
  simp [checkBasicAuth, AuthMemory.credentials, List.isPrefixOf_iff_prefix]

theorem withoutThirds_short {bytes : Bytes} (short : bytes.length < 3) :
    withoutThirds bytes = bytes := by
  unfold withoutThirds
  split
  · simp at short
    omega
  · rfl

theorem withoutThirds_sublist (bytes : Bytes) : (withoutThirds bytes).Sublist bytes := by
  induction bytes using withoutThirds.induct with
  | case1 x y z rest ih =>
      rw [withoutThirds]
      exact ((ih.cons z).cons_cons y).cons_cons x
  | case2 rest short =>
      rw [withoutThirds.eq_2 rest short]

theorem withoutThirds_eq_self {bytes : Bytes} :
    withoutThirds bytes = bytes ↔ bytes.length < 3 := by
  constructor
  · intro same
    match bytes with
    | [] => simp
    | [_] => simp
    | [_, _] => simp
    | x :: y :: z :: rest =>
        have lengths := congrArg List.length same
        have fewer := (withoutThirds_sublist rest).length_le
        simp only [withoutThirds, List.length_cons] at lengths
        omega
  · exact withoutThirds_short

theorem encode_ne_nil {bytes : Bytes} (given : bytes ≠ []) : encode bytes ≠ [] := by
  have := List.length_pos_of_ne_nil given
  apply List.ne_nil_of_length_pos
  rw [encode_length]
  omega

theorem credentials_encode (user : AuthUser) :
    m.credentials (encode user.line) =
      if user.line.length % 3 = 1 then withoutThirds user.line else user.line := by
  obtain ⟨zeros, read⟩ := m.reading_encode (paddingOf 32 (encode user.line)) user.line
  have stops (bytes : Bytes) (string : 0 ∉ bytes) :
      cstr (bytes ++ List.replicate zeros 0) = bytes := by
    cases zeros with
    | zero => rw [List.replicate_zero, List.append_nil, cstr_of_string string]
    | succ n => rw [List.replicate_succ, cstr_append_zero, cstr_of_string string]
  have twice : paddingOf 32 (encode user.line) < 2 ↔ ¬ user.line.length % 3 = 1 := by
    rw [paddingOf_encode 32 user.nonempty]
    omega
  have size : m.decoded.length = 256 := m.decoded_size
  have fits : user.line.length < 256 := user.fits
  rw [AuthMemory.credentials, m.cstr_b64decode (encode_ne_nil user.nonempty), read, size]
  have fewer := withoutThirds_sublist user.line
  by_cases one : user.line.length % 3 = 1
  · rw [if_neg (mt twice.mp (not_not.mpr one)), if_pos one,
      stops _ fun inside => user.string (fewer.subset inside)]
    exact List.take_of_length_le (fewer.length_le.trans fits.le)
  · rw [if_pos (twice.mpr one), if_neg one, stops _ user.string]
    exact List.take_of_length_le fits.le

theorem credentials_exact {user : AuthUser} :
    m.credentials (encode user.line) = user.line ↔
      user.line.length % 3 ≠ 1 ∨ user.line.length = 1 := by
  rw [credentials_encode]
  split
  · rename_i one
    rw [withoutThirds_eq_self]
    omega
  · rename_i many
    exact iff_of_true rfl (Or.inl many)

theorem basicToken_encode (spaces : Nat) (user : AuthUser) :
    basicToken (ascii "Basic " ++ List.replicate spaces 32 ++ encode user.line) =
      encode user.line := by
  have apart : ∀ n < 64, symbol n ≠ 32 := by decide
  obtain ⟨n, small, more, starts⟩ := encode_starts user.nonempty
  have rest : (ascii "Basic " ++ List.replicate spaces 32 ++ encode user.line).drop 6 =
      List.replicate spaces 32 ++ encode user.line := by
    rw [List.append_assoc]
    rfl
  rw [basicToken, rest, List.dropWhile_append_of_pos (by simp), starts]
  exact List.dropWhile_cons_of_neg (by simpa using apart n small)

/-- Not all lines are accepted: the padding of a line with one byte more than a multiple of three
costs every group its third byte. -/
theorem valid_user_accepted_iff {users : List AuthUser} {user : AuthUser} (stored : user ∈ users) :
    (m.credentials (encode user.line) = user.line ↔
        user.line.length % 3 ≠ 1 ∨ user.line.length = 1) ∧
      (checkBasicAuth true users m (some (ascii "Basic " ++ encode user.line)) = true ↔
        user.line.length % 3 ≠ 1 ∨ user.line.length = 1 ∨
          ∃ other ∈ users, other.line = withoutThirds user.line) := by
  have token := basicToken_encode 0 user
  rw [List.replicate_zero, List.append_nil] at token
  have accepted : checkBasicAuth true users m (some (ascii "Basic " ++ encode user.line)) = true ↔
      ∃ other ∈ users, m.credentials (encode user.line) = other.line := by
    rw [checkBasicAuth_iff, token]
    exact and_iff_right (List.prefix_append _ _)
  refine ⟨credentials_exact m, ?_⟩
  rw [accepted, credentials_encode]
  by_cases one : user.line.length % 3 = 1
  · have short : withoutThirds user.line = user.line ↔ user.line.length = 1 := by
      rw [withoutThirds_eq_self]
      omega
    rw [if_pos one]
    constructor
    · intro given
      obtain ⟨other, member, same⟩ := given
      exact Or.inr (Or.inr ⟨other, member, same.symm⟩)
    · intro given
      rcases given with many | single | ⟨other, member, same⟩
      · exact absurd one many
      · exact ⟨user, stored, short.mpr single⟩
      · exact ⟨other, member, same.symm⟩
  · rw [if_neg one]
    exact iff_of_true ⟨user, stored, rfl⟩ (Or.inl one)

def sampleMemory : AuthMemory where
  decoded := List.replicate maxCredsLen 0
  decoded_size := List.length_replicate
  afterHeader _ := 0
  beforeTable _ := 0

def sampleUser : AuthUser := ⟨ascii "user", by decide, by decide, by decide⟩

theorem valid_user_accepted_iff_three :
    let user : AuthUser := ⟨ascii "u:p", by decide, by decide, by decide⟩
    (sampleMemory.credentials (encode user.line) = user.line ↔
        user.line.length % 3 ≠ 1 ∨ user.line.length = 1) ∧
      (checkBasicAuth true [sampleUser, user] sampleMemory
          (some (ascii "Basic " ++ encode user.line)) = true ↔
        user.line.length % 3 ≠ 1 ∨ user.line.length = 1 ∨
          ∃ other ∈ [sampleUser, user], other.line = withoutThirds user.line) :=
  valid_user_accepted_iff sampleMemory (by simp)

theorem user_rejected :
    encode sampleUser.line = ascii "dXNlcg==" ∧
      checkBasicAuth true [sampleUser] sampleMemory (some (ascii "Basic dXNlcg==")) = false := by
  decide +kernel

def NamesLine (users : List AuthUser) (header : Bytes) : Prop :=
  ∃ spaces token, header = ascii "Basic " ++ List.replicate spaces 32 ++ token ∧
    ∃ user ∈ users, decode token = some user.line

theorem cstr_eq_iff {buf s : Bytes} (string : 0 ∉ s) :
    cstr buf = s ↔ s <+: buf ∧ (s.length < buf.length → buf[s.length]? = some 0) := by
  constructor
  · rintro rfl
    refine ⟨List.takeWhile_prefix _, fun shorter => ?_⟩
    have split : cstr buf ++ buf.dropWhile (· != 0) = buf := List.takeWhile_append_dropWhile
    cases rest : buf.dropWhile (· != 0) with
    | nil =>
        rw [rest, List.append_nil] at split
        exact absurd (congrArg List.length split) shorter.ne
    | cons c more =>
        have stops := List.head?_dropWhile_not (· != 0) buf
        rw [rest] at split stops
        have place : ((cstr buf ++ c :: more)[(cstr buf).length]?) = some c := by simp
        rw [split] at place
        rw [place]
        simpa using stops
  · rintro ⟨⟨rest, rfl⟩, stops⟩
    cases rest with
    | nil => rw [List.append_nil, cstr_of_string string]
    | cons c more =>
        obtain rfl : c = 0 := by simpa using stops (by simp)
        rw [cstr_append_zero, cstr_of_string string]

/-- The characters of the token stand for the bytes of the text, and then for a zero byte, if for
anything. For an empty token nothing is written. -/
def AuthMemory.Spells (token text : Bytes) : Prop :=
  if token = [] then cstr m.decoded = text
  else
    let size := AuthMemory.groupSize (paddingOf 32 token)
    let room := (token.length + 3) / 4 * size
    text.length ≤ room ∧ (∀ k (inside : k < text.length), m.spelled size token k = text[k]) ∧
      (text.length < room → m.spelled size token text.length = 0)

theorem credentials_iff (user : AuthUser) (token : Bytes) :
    m.credentials token = user.line ↔ m.Spells token user.line := by
  rw [AuthMemory.Spells]
  split
  · rename_i empty
    rw [AuthMemory.credentials, AuthMemory.b64decode, if_pos empty]
  · rename_i given
    have room := m.reading_length (paddingOf 32 token) token
    change _ = _ * AuthMemory.groupSize _ at room
    have size : m.decoded.length = 256 := m.decoded_size
    have fits : user.line.length < 256 := user.fits
    have whole (s : Bytes) : s.take 256 = user.line ↔ s = user.line := by
      constructor
      · intro cut
        have lengths := congrArg List.length cut
        rw [List.length_take] at lengths
        rwa [List.take_of_length_le (by omega)] at cut
      · rintro rfl
        exact List.take_of_length_le fits.le
    rw [AuthMemory.credentials, m.cstr_b64decode given, size, whole, cstr_eq_iff user.string,
      List.prefix_iff_getElem?, room]
    constructor
    · rintro ⟨starts, stops⟩
      have inside (k : Nat) (short : k < user.line.length) :
          k < (m.reading (paddingOf 32 token) token).length :=
        (List.getElem?_eq_some_iff.mp (starts k short)).1
      refine ⟨?_, fun k short => ?_, fun shorter => ?_⟩
      · have last := inside (user.line.length - 1) (by
          have := List.length_pos_of_ne_nil user.nonempty
          omega)
        rw [room] at last
        omega
      · have starts := starts k short
        rw [m.reading_getElem? _ token (inside k short)] at starts
        exact Option.some.inj starts
      · have stops := stops shorter
        rw [m.reading_getElem? _ token (room ▸ shorter)] at stops
        exact Option.some.inj stops
    · rintro ⟨long, starts, stops⟩
      refine ⟨fun k short => ?_, fun shorter => ?_⟩
      · rw [m.reading_getElem? _ token (by rw [room]; exact short.trans_le long), starts k short]
      · rw [m.reading_getElem? _ token (room ▸ shorter), stops shorter]

/-- The header names no line by its encoding, and yet its token spells one that is stored: then, and
only then, what is accepted is not what the header says. -/
theorem accepted_names_line_iff (users : List AuthUser) (header : Bytes) :
    (checkBasicAuth true users m (some header) = true → NamesLine users header) ↔
      ¬ ascii "Basic " <+: header ∨ (∃ user ∈ users, basicToken header = encode user.line) ∨
        ∀ user ∈ users, ¬ m.Spells (basicToken header) user.line := by
  have accepted : checkBasicAuth true users m (some header) = true ↔ ascii "Basic " <+: header ∧
      ∃ user ∈ users, m.Spells (basicToken header) user.line := by
    simp only [checkBasicAuth_iff, credentials_iff]
  rw [accepted]
  constructor
  · intro sound
    by_cases basic : ascii "Basic " <+: header
    · by_cases spelled : ∃ user ∈ users, m.Spells (basicToken header) user.line
      · obtain ⟨spaces, token, split, user, member, decoded⟩ := sound ⟨basic, spelled⟩
        refine .inr (.inl ⟨user, member, ?_⟩)
        rw [split, decode_eq_some.mp decoded, basicToken_encode]
      · exact .inr (.inr fun user member spells => spelled ⟨user, member, spells⟩)
    · exact .inl basic
  · rintro (other | ⟨user, member, token⟩ | never) ⟨basic, user', member', spells⟩
    · exact absurd basic other
    · obtain ⟨rest, rfl⟩ := basic
      refine ⟨(rest.takeWhile (· == 32)).length, basicToken (ascii "Basic " ++ rest), ?_, user,
        member, ?_⟩
      · have spaces : rest.takeWhile (· == 32) =
            List.replicate (rest.takeWhile (· == 32)).length 32 :=
          List.eq_replicate_iff.mpr
            ⟨rfl, fun c inside => by simpa using List.mem_takeWhile_imp inside⟩
        rw [← spaces, List.append_assoc]
        exact congrArg (ascii "Basic " ++ ·) List.takeWhile_append_dropWhile.symm
      · rw [token, decode_encode]
    · exact absurd spells (never user' member')

theorem misread_accepted :
    let usr : AuthUser := ⟨ascii "usr", by decide, by decide, by decide⟩
    let zero : AuthUser := ⟨ascii "0", by decide, by decide, by decide⟩
    (checkBasicAuth true [usr] sampleMemory (some (ascii "Basic dXNlcg==")) = true ∧
        ¬ NamesLine [usr] (ascii "Basic dXNlcg==")) ∧
      (checkBasicAuth true [zero] sampleMemory (some (ascii "Basic M!==")) = true ∧
        ¬ NamesLine [zero] (ascii "Basic M!==")) := by
  have named {user : AuthUser} {header : Bytes} (names : NamesLine [user] header) :
      basicToken header = encode user.line := by
    obtain ⟨spaces, token, rfl, found, member, decoded⟩ := names
    obtain rfl := List.mem_singleton.mp member
    rw [decode_eq_some.mp decoded, basicToken_encode]
  refine ⟨⟨by decide +kernel, fun names => ?_⟩, by decide +kernel, fun names => ?_⟩
  · exact absurd (named names) (by decide +kernel)
  · exact absurd (named names) (by decide +kernel)

end ProxyServer
