import ProxyServer.Auth.BasicAuth

namespace ProxyServer

inductive MemoryAccess where
  | input (k : Int)
  | table (index : Int)
  | output (j : Nat)
  deriving DecidableEq

def MemoryAccess.Inside (len outMax : Nat) : MemoryAccess → Prop
  | .input k => 0 ≤ k ∧ k ≤ len
  | .table index => 0 ≤ index ∧ index ≤ 255
  | .output j => j < outMax

def MemoryAccess.written : MemoryAccess → Option Nat
  | .output j => some j
  | _ => none

def groupReads (i : Nat) (a b c d : UInt8) : List MemoryAccess :=
  [.input i, .table (signedChar a), .input (i + 1), .table (signedChar b),
    .input (i + 2), .table (signedChar c), .input (i + 3), .table (signedChar d)]

def groupWrites (pad outMax i j : Nat) : List MemoryAccess :=
  let second := if j + 1 < outMax ∧ i + 4 - pad > i + 1 then [MemoryAccess.output (j + 1)] else []
  let next := j + 1 + second.length
  let third := if next < outMax ∧ i + 4 - pad > i + 2 then [MemoryAccess.output next] else []
  .output j :: second ++ third

def terminatorWrite (outMax j : Nat) : List MemoryAccess := if j < outMax then [.output j] else []

namespace AuthMemory

variable (m : AuthMemory)

def loopAccesses (pad outMax : Nat) : Nat → Bytes → Bytes → List MemoryAccess
  | _, out, [] => terminatorWrite outMax out.length
  | i, out, [a] =>
      if out.length < outMax then
        groupReads i a 0 (m.afterHeader 0) (m.afterHeader 1) ++
          groupWrites pad outMax i out.length ++
          terminatorWrite outMax
            (m.b64group pad outMax i out a 0 (m.afterHeader 0) (m.afterHeader 1)).length
      else terminatorWrite outMax out.length
  | i, out, [a, b] =>
      if out.length < outMax then
        groupReads i a b 0 (m.afterHeader 0) ++ groupWrites pad outMax i out.length ++
          terminatorWrite outMax (m.b64group pad outMax i out a b 0 (m.afterHeader 0)).length
      else terminatorWrite outMax out.length
  | i, out, [a, b, c] =>
      if out.length < outMax then
        groupReads i a b c 0 ++ groupWrites pad outMax i out.length ++
          terminatorWrite outMax (m.b64group pad outMax i out a b c 0).length
      else terminatorWrite outMax out.length
  | i, out, a :: b :: c :: d :: rest =>
      if out.length < outMax then
        groupReads i a b c d ++ groupWrites pad outMax i out.length ++
          loopAccesses pad outMax (i + 4) (m.b64group pad outMax i out a b c d) rest
      else terminatorWrite outMax out.length

def accesses (before : UInt8) (input : Bytes) (outMax : Nat) : List MemoryAccess :=
  (List.range (input.length + 1)).map (fun k : Nat => MemoryAccess.input k) ++
    if input = [] then []
    else
      MemoryAccess.input (input.length - 1) ::
        (if input.getLast? = some 61 then [MemoryAccess.input (input.length - 2)] else []) ++
        m.loopAccesses (paddingOf before input) outMax 0 [] input

end AuthMemory

theorem signedChar_inside (c : UInt8) : 0 ≤ signedChar c ∧ signedChar c ≤ 255 ↔ c < 128 := by
  have small := c.toNat_lt
  have half : c < 128 ↔ c.toNat < 128 := UInt8.lt_iff_toNat_lt
  by_cases low : c < 128
  · rw [signedChar, if_pos low]
    exact iff_of_true ⟨by omega, by omega⟩ low
  · have high := mt half.mpr low
    rw [signedChar, if_neg low]
    exact iff_of_false (by omega) low

theorem groupReads_inside (i len outMax : Nat) (a b c d : UInt8) :
    (∀ access ∈ groupReads i a b c d, access.Inside len outMax) ↔
      i + 3 ≤ len ∧ a < 128 ∧ b < 128 ∧ c < 128 ∧ d < 128 := by
  simp only [groupReads, List.forall_mem_cons, MemoryAccess.Inside, signedChar_inside]
  constructor
  · rintro ⟨-, isA, -, isB, -, isC, last, isD, -⟩
    exact ⟨by omega, isA, isB, isC, isD⟩
  · rintro ⟨last, isA, isB, isC, isD⟩
    refine ⟨by omega, isA, by omega, isB, by omega, isC, by omega, isD, ?_⟩
    simp

theorem forall_mem_guarded {p : Prop} [Decidable p] {access : MemoryAccess}
    {P : MemoryAccess → Prop} :
    (∀ x ∈ if p then [access] else [], P x) ↔ (p → P access) := by
  split <;> simp_all

theorem groupWrites_inside (pad i len : Nat) {outMax j : Nat} (room : j < outMax) :
    ∀ access ∈ groupWrites pad outMax i j, access.Inside len outMax := by
  simp only [groupWrites, List.cons_append, List.forall_mem_cons, List.forall_mem_append,
    forall_mem_guarded, MemoryAccess.Inside]
  exact ⟨room, fun second => second.1, fun third => third.1⟩

theorem terminatorWrite_inside (len outMax j : Nat) :
    ∀ access ∈ terminatorWrite outMax j, access.Inside len outMax :=
  forall_mem_guarded.mpr id

theorem round_inside (pad i len : Nat) {outMax j : Nat} (room : j < outMax) (a b c d : UInt8)
    (later : List MemoryAccess) :
    (∀ access ∈ groupReads i a b c d ++ groupWrites pad outMax i j ++ later,
        access.Inside len outMax) ↔
      i + 3 ≤ len ∧ (a < 128 ∧ b < 128 ∧ c < 128 ∧ d < 128) ∧
        ∀ access ∈ later, access.Inside len outMax := by
  rw [List.forall_mem_append, List.forall_mem_append, groupReads_inside, and_assoc, and_assoc,
    and_iff_right (groupWrites_inside pad i len room)]

/-- From the output position `j` on, with `width` bytes a group, the rounds that are made find a
whole group, or three bytes and the terminator, and no byte above 127. -/
def RoundsInside (width outMax j : Nat) (input : Bytes) : Prop :=
  (input.length % 4 = 0 ∨ input.length % 4 = 3 ∨ outMax ≤ j + input.length / 4 * width) ∧
    ∀ k c, input[k]? = some c → j + k / 4 * width < outMax → c < 128

theorem roundsInside_full (width : Nat) {outMax j : Nat} (full : outMax ≤ j) (input : Bytes) :
    RoundsInside width outMax j input := by
  refine ⟨Or.inr (Or.inr (full.trans (Nat.le_add_right _ _))), ?_⟩
  intro k c found more
  omega

theorem roundsInside_min {width outMax j : Nat} {input : Bytes} :
    RoundsInside width outMax (min outMax j) input ↔ RoundsInside width outMax j input := by
  rcases Nat.le_total outMax j with full | room
  · rw [Nat.min_eq_left full]
    exact iff_of_true (roundsInside_full width le_rfl input) (roundsInside_full width full input)
  · rw [Nat.min_eq_right room]

theorem forall_getElem?_cons {a : UInt8} {rest : Bytes} {P : Nat → UInt8 → Prop} :
    (∀ k c, (a :: rest)[k]? = some c → P k c) ↔
      P 0 a ∧ ∀ k c, rest[k]? = some c → P (k + 1) c := by
  constructor
  · intro all
    exact ⟨all 0 a rfl, fun k c found => all (k + 1) c found⟩
  · rintro ⟨first, later⟩ k c found
    cases k with
    | zero =>
        cases found
        exact first
    | succ k => exact later k c found

theorem roundsInside_group {width outMax j : Nat} (room : j < outMax) (a b c d : UInt8)
    (rest : Bytes) :
    RoundsInside width outMax j (a :: b :: c :: d :: rest) ↔
      (a < 128 ∧ b < 128 ∧ c < 128 ∧ d < 128) ∧ RoundsInside width outMax (j + width) rest := by
  have size : (a :: b :: c :: d :: rest).length = rest.length + 4 := rfl
  have groups : j + (rest.length + 4) / 4 * width = j + width + rest.length / 4 * width := by
    rw [Nat.add_div_right _ (by decide), Nat.succ_mul]
    omega
  have later (k : Nat) : j + (k + 4) / 4 * width = j + width + k / 4 * width := by
    rw [Nat.add_div_right _ (by decide), Nat.succ_mul]
    omega
  have four (k : Nat) : k + 1 + 1 + 1 + 1 = k + 4 := rfl
  simp only [RoundsInside, forall_getElem?_cons, size, Nat.add_mod_right, groups, four, later,
    Nat.reduceAdd, Nat.reduceDiv, Nat.zero_mul, Nat.add_zero, room, true_imp_iff]
  tauto

namespace AuthMemory

variable (m : AuthMemory)

theorem loopAccesses_inside {pad outMax : Nat} (atMost : pad ≤ 2) {i len : Nat} {out : Bytes}
    (room : out.length ≤ outMax) (input : Bytes) (whole : i + input.length = len) :
    (∀ access ∈ m.loopAccesses pad outMax i out input, access.Inside len outMax) ↔
      RoundsInside (if pad < 2 then 3 else 2) outMax out.length input := by
  by_cases full : out.length = outMax
  · have nothing : m.loopAccesses pad outMax i out input = [] := by
      unfold loopAccesses
      split <;> simp [full, terminatorWrite]
    rw [nothing]
    exact iff_of_true (fun _ inside => absurd inside List.not_mem_nil)
      (roundsInside_full _ full.ge input)
  · have space : out.length < outMax := Nat.lt_of_le_of_ne room full
    match input with
    | [] =>
        rw [loopAccesses]
        exact iff_of_true (terminatorWrite_inside len outMax out.length) (by simp [RoundsInside])
    | [a] =>
        -- the fourth character of the round is two after the terminator
        rw [loopAccesses, if_pos space, round_inside pad i len space]
        have short : ¬ i + 3 ≤ len := by
          simp only [List.length_singleton] at whole
          omega
        exact iff_of_false (fun inside => short inside.1) (by simp [RoundsInside, space])
    | [a, b] =>
        rw [loopAccesses, if_pos space, round_inside pad i len space]
        have short : ¬ i + 3 ≤ len := by
          simp only [List.length_cons, List.length_nil] at whole
          omega
        exact iff_of_false (fun inside => short inside.1) (by simp [RoundsInside, space])
    | [a, b, c] =>
        rw [loopAccesses, if_pos space, round_inside pad i len space,
          and_iff_left (terminatorWrite_inside len outMax _)]
        have last : i + 3 ≤ len := whole.le
        have zero : (0 : UInt8) < 128 := by decide
        simp [RoundsInside, forall_getElem?_cons, last, space, zero]
    | a :: b :: c :: d :: rest =>
        have size : (m.b64group pad outMax i out a b c d).length =
            min outMax (out.length + if pad < 2 then 3 else 2) := by
          rw [m.b64group_eq atMost i space, List.length_take, List.length_append,
            m.groupBytes_length]
        have last : i + 4 + rest.length = len := by
          simp only [List.length_cons] at whole
          omega
        rw [loopAccesses, if_pos space, round_inside pad i len space,
          loopAccesses_inside atMost (size.trans_le (Nat.min_le_left _ _)) rest last, size,
          roundsInside_min, roundsInside_group space, and_iff_right (by omega)]

theorem groupWrites_written (pad outMax i : Nat) (out : Bytes) (a b c d : UInt8) :
    (groupWrites pad outMax i out.length).filterMap MemoryAccess.written =
      List.range' out.length ((m.b64group pad outMax i out a b c d).length - out.length) := by
  by_cases second : out.length + 1 < outMax ∧ i + 4 - pad > i + 1
  · by_cases third : out.length + 2 < outMax ∧ i + 4 - pad > i + 2
    · simp [groupWrites, b64group, MemoryAccess.written, second, third, List.range']
    · simp [groupWrites, b64group, MemoryAccess.written, second, third, List.range']
  · have third : ¬ (out.length + 1 < outMax ∧ i + 4 - pad > i + 2) := fun more =>
      second ⟨more.1, by omega⟩
    simp [groupWrites, b64group, MemoryAccess.written, second, third]

theorem groupReads_written (i : Nat) (a b c d : UInt8) :
    (groupReads i a b c d).filterMap MemoryAccess.written = [] := rfl

theorem terminatorWrite_written (outMax j : Nat) :
    (terminatorWrite outMax j).filterMap MemoryAccess.written =
      List.range' j (min (j + 1) outMax - j) := by
  unfold terminatorWrite
  split
  · have one : min (j + 1) outMax - j = 1 := by omega
    rw [one]
    rfl
  · have none : min (j + 1) outMax - j = 0 := by omega
    rw [none]
    rfl

theorem b64group_grows {pad outMax i : Nat} (atMost : pad ≤ 2) {out : Bytes}
    (room : out.length < outMax) (a b c d : UInt8) :
    out.length ≤ (m.b64group pad outMax i out a b c d).length ∧
      (m.b64group pad outMax i out a b c d).length ≤ outMax := by
  rw [m.b64group_eq atMost i room, List.length_take, List.length_append]
  omega

theorem round_written {pad outMax i : Nat} (atMost : pad ≤ 2) {out : Bytes}
    (room : out.length < outMax) (a b c d : UInt8) {later : List MemoryAccess} {final : Nat}
    (further : (m.b64group pad outMax i out a b c d).length ≤ final)
    (rest : later.filterMap MemoryAccess.written =
      List.range' (m.b64group pad outMax i out a b c d).length
        (final - (m.b64group pad outMax i out a b c d).length)) :
    (groupReads i a b c d ++ groupWrites pad outMax i out.length ++ later).filterMap
        MemoryAccess.written =
      List.range' out.length (final - out.length) := by
  obtain ⟨more, size⟩ := Nat.exists_eq_add_of_le (m.b64group_grows (i := i) atMost room a b c d).1
  rw [List.filterMap_append, List.filterMap_append, groupReads_written, List.nil_append,
    m.groupWrites_written, rest, size, Nat.add_sub_cancel_left, List.range'_append_1]
  congr 1
  omega

theorem lastRound_written {pad outMax i : Nat} (atMost : pad ≤ 2) {out : Bytes}
    (room : out.length < outMax) (a b c d : UInt8) :
    (groupReads i a b c d ++ groupWrites pad outMax i out.length ++
        terminatorWrite outMax (m.b64group pad outMax i out a b c d).length).filterMap
        MemoryAccess.written =
      List.range' out.length
        (min ((m.b64group pad outMax i out a b c d).length + 1) outMax - out.length) := by
  have fits := (m.b64group_grows (i := i) atMost room a b c d).2
  exact m.round_written atMost room a b c d (by omega) (terminatorWrite_written _ _)

theorem loopAccesses_written {pad outMax : Nat} (atMost : pad ≤ 2) (i : Nat) {out : Bytes}
    (room : out.length ≤ outMax) (input : Bytes) :
    (m.loopAccesses pad outMax i out input).filterMap MemoryAccess.written =
      List.range' out.length
        (min ((m.b64loop pad outMax i out input).length + 1) outMax - out.length) := by
  by_cases full : out.length = outMax
  · have stops : m.loopAccesses pad outMax i out input = terminatorWrite outMax out.length := by
      unfold loopAccesses
      split <;> simp [full]
    have same : m.b64loop pad outMax i out input = out := by
      unfold b64loop
      split <;> simp [full]
    rw [stops, same, terminatorWrite_written]
  · have space : out.length < outMax := Nat.lt_of_le_of_ne room full
    match input with
    | [] =>
        rw [loopAccesses, b64loop, terminatorWrite_written]
    | [a] =>
        rw [loopAccesses, b64loop, if_pos space, if_pos space, m.lastRound_written atMost space]
    | [a, b] =>
        rw [loopAccesses, b64loop, if_pos space, if_pos space, m.lastRound_written atMost space]
    | [a, b, c] =>
        rw [loopAccesses, b64loop, if_pos space, if_pos space, m.lastRound_written atMost space]
    | a :: b :: c :: d :: rest =>
        have fits := (m.b64group_grows (i := i) atMost space a b c d).2
        have further : (m.b64group pad outMax i out a b c d).length ≤
            (m.b64loop pad outMax (i + 4) (m.b64group pad outMax i out a b c d) rest).length := by
          rw [m.b64loop_eq atMost (i + 4) fits, List.length_take, List.length_append]
          omega
        rw [loopAccesses, b64loop, if_pos space, if_pos space]
        exact m.round_written atMost space a b c d (by omega)
          (loopAccesses_written atMost (i + 4) fits rest)

theorem accesses_written {before : UInt8} {input out : Bytes} (given : input ≠ []) :
    (m.accesses before input out.length).filterMap MemoryAccess.written =
      List.range (min ((m.b64decode before input out).2 + 1) out.length) := by
  have empty : ([] : Bytes).length ≤ out.length := Nat.zero_le _
  have rounds := m.loopAccesses_written (paddingOf_le before input) 0 empty input
  have length : ((List.range (input.length + 1)).map
      (fun k : Nat => MemoryAccess.input k)).filterMap MemoryAccess.written = [] := by
    simp [MemoryAccess.written]
  have padded : (if input.getLast? = some 61 then [MemoryAccess.input (input.length - 2)]
      else []).filterMap MemoryAccess.written = [] := by
    split <;> rfl
  rw [accesses, b64decode, if_neg given, if_neg given, List.filterMap_append, length,
    List.filterMap_append, List.filterMap_cons, padded, rounds]
  simp [MemoryAccess.written, List.range_eq_range']

def StaysInside (before : UInt8) (input : Bytes) (outMax : Nat) : Prop :=
  ∀ access ∈ m.accesses before input outMax, access.Inside input.length outMax

theorem staysInside_iff (before : UInt8) (input : Bytes) (outMax : Nat) :
    m.StaysInside before input outMax ↔
      input ≠ [61] ∧
        RoundsInside (if paddingOf before input < 2 then 3 else 2) outMax 0 input := by
  have length (k : Nat) (small : k ∈ List.range (input.length + 1)) :
      (MemoryAccess.input k).Inside input.length outMax := by
    have := List.mem_range.mp small
    simp only [MemoryAccess.Inside]
    omega
  have empty : ([] : Bytes).length ≤ outMax := Nat.zero_le _
  have rounds := m.loopAccesses_inside (paddingOf_le before input) empty input
    (Nat.zero_add input.length)
  rw [StaysInside, accesses, List.forall_mem_append, List.forall_mem_map, and_iff_right length]
  by_cases given : input = []
  · subst given
    simp [RoundsInside]
  · have size := List.length_pos_of_ne_nil given
    have lookBack : (input.getLast? = some 61 →
        (MemoryAccess.input (input.length - 2)).Inside input.length outMax) ↔ input ≠ [61] := by
      constructor
      · intro inside single
        subst single
        exact absurd (inside rfl).1 (by decide)
      · intro other last
        have two : input.length ≠ 1 := by
          intro one
          obtain ⟨c, rfl⟩ := List.length_eq_one_iff.mp one
          cases last
          exact other rfl
        simp only [MemoryAccess.Inside]
        omega
    have last : (MemoryAccess.input (input.length - 1)).Inside input.length outMax := by
      simp only [MemoryAccess.Inside]
      omega
    rw [if_neg given, List.forall_mem_append, List.forall_mem_cons, forall_mem_guarded, lookBack,
      rounds, and_iff_right last, List.length_nil]

end AuthMemory

/-- A single character is read with two bytes after its terminator, a byte above 127 looks before
the table, and a single padding looks before the input. -/
theorem accesses_outside :
    MemoryAccess.input 3 ∈ sampleMemory.accesses 32 (ascii "A") maxCredsLen ∧
      ¬ sampleMemory.StaysInside 32 (ascii "A") maxCredsLen ∧
      MemoryAccess.table (-1) ∈ sampleMemory.accesses 32 [255, 65, 65, 65] maxCredsLen ∧
      ¬ sampleMemory.StaysInside 32 [255, 65, 65, 65] maxCredsLen ∧
      MemoryAccess.input (-1) ∈ sampleMemory.accesses 32 (ascii "=") maxCredsLen ∧
      ¬ sampleMemory.StaysInside 32 (ascii "=") maxCredsLen := by
  have short : MemoryAccess.input 3 ∈ sampleMemory.accesses 32 (ascii "A") maxCredsLen := by
    decide
  have high : MemoryAccess.table (-1) ∈ sampleMemory.accesses 32 [255, 65, 65, 65] maxCredsLen := by
    decide
  have padded : MemoryAccess.input (-1) ∈ sampleMemory.accesses 32 (ascii "=") maxCredsLen := by
    decide
  refine ⟨short, ?_, high, ?_, padded, ?_⟩
  · intro inside
    exact absurd (inside _ short).2 (by decide)
  · intro inside
    exact absurd (inside _ high).1 (by decide)
  · intro inside
    exact absurd (inside _ padded).1 (by decide)

end ProxyServer
