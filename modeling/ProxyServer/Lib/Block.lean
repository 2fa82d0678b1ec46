import ProxyServer.CString

/-!
# Blocks of memory

A block is the bytes of one allocation, and a pointer into it is an offset. A read or a store that
leaves its block is a fault, as is the use of a null pointer.
-/

namespace ProxyServer.Lib.Block

inductive Fault
  | outOfBounds
  | nullPointer
  | unfinished
  deriving DecidableEq

abbrev Checked := Except Fault

def stringAt (block : Bytes) (i : Nat) : Checked Bytes :=
  if 0 ∈ block.drop i then .ok (cstr (block.drop i)) else .error .outOfBounds

def byteAt (block : Bytes) (i : Nat) : Checked UInt8 :=
  match block[i]? with
  | some c => .ok c
  | none => .error .outOfBounds

def copyAt (block : Bytes) (i n : Nat) : Checked Bytes :=
  if i + n ≤ block.length then .ok ((block.drop i).take n) else .error .outOfBounds

def storeAt (block : Bytes) (i : Nat) (c : UInt8) : Checked Bytes :=
  if i < block.length then .ok (block.set i c) else .error .outOfBounds

def writeAt (block : Bytes) (i : Nat) (bytes : Bytes) : Checked Bytes :=
  if i + bytes.length ≤ block.length then
    .ok (block.take i ++ bytes ++ block.drop (i + bytes.length))
  else
    .error .outOfBounds

def put (cursor : Bytes × Nat) (bytes : Bytes) : Checked (Bytes × Nat) := do
  let block ← writeAt cursor.1 cursor.2 bytes
  return (block, cursor.2 + bytes.length)

/-- A pointer that takes part in pointer arithmetic. -/
def deref : Option Nat → Checked Nat
  | some i => .ok i
  | none => .error .nullPointer

def strchr (block : Bytes) (i : Nat) (c : UInt8) : Checked (Option Nat) := do
  let s ← stringAt block i
  return if c ∈ s then some (i + s.idxOf c) else none

def strstr (block : Bytes) (i : Nat) (needle : Bytes) : Checked (Option Nat) := do
  let s ← stringAt block i
  return (memmem s needle).map fun rest => i + (s.length - rest.length)

/-- The token, where the next call goes on from, and the block with the token terminated. -/
def strtokR (block : Bytes) (i : Nat) (isDelim : UInt8 → Bool) :
    Checked (Option Nat × Nat × Bytes) := do
  let s ← stringAt block i
  let i := i + (s.takeWhile isDelim).length
  let s := s.dropWhile isDelim
  if s = [] then
    return (none, i, block)
  let stop := i + (s.takeWhile (!isDelim ·)).length
  if s.dropWhile (!isDelim ·) = [] then
    return (some i, stop, block)
  let block ← storeAt block stop 0
  return (some i, stop + 1, block)

theorem ok_bind {α β : Type} (a : α) (f : α → Checked β) : (Except.ok a >>= f) = f a := rfl

theorem error_bind {α β : Type} (fault : Fault) (f : α → Checked β) :
    ((Except.error fault : Checked α) >>= f) = .error fault := rfl

theorem exists_of_bind {α β : Type} {x : Checked α} {f : α → Checked β} {b : β}
    (done : (x >>= f) = .ok b) : ∃ a, x = .ok a ∧ f a = .ok b := by
  cases x with
  | error fault => simp [error_bind] at done
  | ok a => exact ⟨a, rfl, done⟩

/-! ## Strings in a block -/

def Points (block : Bytes) (i : Nat) (s : Bytes) : Prop :=
  ∃ before after, block = before ++ s ++ 0 :: after ∧ before.length = i ∧ 0 ∉ s

variable {block s : Bytes} {i : Nat}

theorem points_terminated {s : Bytes} (string : 0 ∉ s) : Points (s ++ [0]) 0 s :=
  ⟨[], [], by simp, rfl, string⟩

theorem points_cstr (buf : Bytes) {i : Nat} (inside : i ≤ buf.length) :
    Points (buf ++ [0]) i (cstr (buf.drop i)) := by
  have split : cstr (buf.drop i) ++ (buf.drop i).dropWhile (· != 0) = buf.drop i :=
    List.takeWhile_append_dropWhile
  cases rest : (buf.drop i).dropWhile (· != 0) with
  | nil =>
      rw [rest, List.append_nil] at split
      refine ⟨buf.take i, [], ?_, by simp [inside], zero_notMem_cstr _⟩
      rw [split, List.take_append_drop]
  | cons c after =>
      have zero : c = 0 := by
        have stops := List.head?_dropWhile_not (· != 0) (buf.drop i)
        simpa [rest] using stops
      subst zero
      refine ⟨buf.take i, after ++ [0], ?_, by simp [inside], zero_notMem_cstr _⟩
      rw [rest] at split
      calc buf ++ [0] = buf.take i ++ buf.drop i ++ [0] := by rw [List.take_append_drop]
        _ = buf.take i ++ (cstr (buf.drop i) ++ 0 :: after) ++ [0] := by rw [split]
        _ = buf.take i ++ cstr (buf.drop i) ++ 0 :: (after ++ [0]) := by simp

theorem Points.drop_eq (points : Points block i s) : ∃ after, block.drop i = s ++ 0 :: after := by
  obtain ⟨before, after, rfl, rfl, -⟩ := points
  exact ⟨after, by simp⟩

theorem Points.notMem (points : Points block i s) : 0 ∉ s := by
  obtain ⟨-, -, -, -, string⟩ := points
  exact string

theorem Points.lt_length (points : Points block i s) : i + s.length < block.length := by
  obtain ⟨before, after, rfl, rfl, -⟩ := points
  simp

theorem Points.stringAt (points : Points block i s) : stringAt block i = .ok s := by
  obtain ⟨after, dropped⟩ := points.drop_eq
  rw [Block.stringAt, dropped, if_pos (by simp), cstr_append_zero, cstr_of_string points.notMem]

theorem Points.unique {t : Bytes} (points : Points block i s) (other : Points block i t) :
    s = t := by
  have same := points.stringAt.symm.trans other.stringAt
  exact Except.ok.inj same

theorem stringAt_past (past : block.length ≤ i) : stringAt block i = .error .outOfBounds := by
  rw [stringAt, List.drop_eq_nil_of_le past, if_neg List.not_mem_nil]

theorem Points.drop {n : Nat} (points : Points block i s) (inside : n ≤ s.length) :
    Points block (i + n) (s.drop n) := by
  obtain ⟨before, after, rfl, rfl, string⟩ := points
  refine ⟨before ++ s.take n, after, ?_, by simp [inside], fun h => string (List.mem_of_mem_drop h)⟩
  rw [List.append_assoc before (s.take n), List.take_append_drop]

theorem Points.suffix {t : Bytes} (points : Points block i (t ++ s)) :
    Points block (i + t.length) s := by
  simpa using points.drop (n := t.length) (by simp)

theorem Points.byteAt_cons {c : UInt8} (points : Points block i (c :: s)) :
    byteAt block i = .ok c := by
  obtain ⟨before, after, rfl, rfl, -⟩ := points
  simp [byteAt]

theorem Points.byteAt_nil (points : Points block i []) : byteAt block i = .ok 0 := by
  obtain ⟨before, after, rfl, rfl, -⟩ := points
  simp [byteAt]

theorem Points.byteAt_head {c : UInt8} (points : Points block i s) (first : s.head? = some c) :
    byteAt block i = .ok c := by
  obtain ⟨rest, rfl⟩ := List.head?_eq_some_iff.mp first
  exact points.byteAt_cons

theorem Points.byteAt_ne {c : UInt8} (points : Points block i s) (other : s.head? ≠ some c)
    (nonzero : c ≠ 0) : ∃ d ≠ c, byteAt block i = .ok d := by
  cases s with
  | nil => exact ⟨0, nonzero.symm, points.byteAt_nil⟩
  | cons d s => exact ⟨d, by simpa using other, points.byteAt_cons⟩

theorem Points.copyAt {n : Nat} (points : Points block i s) (inside : n ≤ s.length) :
    copyAt block i n = .ok (s.take n) := by
  obtain ⟨after, dropped⟩ := points.drop_eq
  have fits := points.lt_length
  rw [Block.copyAt, if_pos (by omega), dropped, List.take_append_of_le_length inside]

theorem Points.storeAt {c : UInt8} {t : Bytes} (points : Points block i (s ++ c :: t)) :
    ∃ cut, storeAt block (i + s.length) 0 = .ok cut ∧ cut.length = block.length ∧
      Points cut i s ∧ Points cut (i + s.length + 1) t ∧
      ∀ j u, Points block j u → j + u.length < i → Points cut j u := by
  obtain ⟨before, after, rfl, rfl, string⟩ := points
  have stored : (before ++ (s ++ c :: t) ++ 0 :: after).set (before.length + s.length) 0 =
      before ++ s ++ 0 :: (t ++ 0 :: after) := by
    simp
  refine ⟨_, if_pos (by simp), List.length_set, ?_⟩
  rw [stored]
  have absent : 0 ∉ s ∧ 0 ∉ t := by simp_all
  refine ⟨⟨before, t ++ 0 :: after, rfl, rfl, absent.1⟩,
    ⟨before ++ s ++ [0], after, by simp, by simp; omega, absent.2⟩, ?_⟩
  rintro j u ⟨first, last, same, rfl, clean⟩ early
  -- The string at `j` and its terminator lie in `before`, which the store leaves alone.
  have inBefore : first ++ u ++ [0] <+: before := by
    have whole : first ++ u ++ [0] <+: before ++ (s ++ c :: t ++ 0 :: after) :=
      ⟨last, by simpa using same.symm⟩
    exact List.prefix_of_prefix_length_le whole (List.prefix_append _ _) (by simp; omega)
  obtain ⟨more, rfl⟩ := inBefore
  exact ⟨first, more ++ s ++ 0 :: (t ++ 0 :: after), by simp, rfl, clean⟩

/-! ## Copying from a block -/

theorem copyAt_front (bytes rest : Bytes) : copyAt (bytes ++ rest) 0 bytes.length = .ok bytes := by
  rw [copyAt, if_pos (by simp), List.drop_zero, List.take_left]

theorem copyAt_inside (before bytes rest : Bytes) :
    copyAt (before ++ (bytes ++ rest)) before.length bytes.length = .ok bytes := by
  rw [copyAt, if_pos (by simp), List.drop_left, List.take_left]

/-! ## Writing into a block -/

theorem writeAt_ok {bytes : Bytes} (fits : i + bytes.length ≤ block.length) :
    writeAt block i bytes =
      .ok (block.take i ++ bytes ++ block.drop (i + bytes.length)) :=
  if_pos fits

theorem writeAt_fault {bytes : Bytes} (long : block.length < i + bytes.length) :
    writeAt block i bytes = .error .outOfBounds :=
  if_neg (by omega)

theorem writeAt_append (block : Bytes) (i : Nat) (first second : Bytes) :
    (writeAt block i first >>= fun block => writeAt block (i + first.length) second) =
      writeAt block i (first ++ second) := by
  by_cases fits : i + first.length ≤ block.length
  · have before : (block.take i ++ first).length = i + first.length := by
      rw [List.length_append, List.length_take, min_eq_left (by omega)]
    have whole : (block.take i ++ first ++ block.drop (i + first.length)).length =
        block.length := by
      rw [List.length_append, before, List.length_drop]
      omega
    rw [writeAt_ok fits, ok_bind, writeAt, writeAt, whole, List.length_append, ← Nat.add_assoc]
    congr 2
    rw [← before, List.take_left, List.drop_length_add_append, before, List.drop_drop,
      List.append_assoc (block.take i)]
  · rw [writeAt_fault (by omega), writeAt_fault (by rw [List.length_append]; omega), error_bind]

theorem put_put (cursor : Bytes × Nat) (first second : Bytes) :
    (put cursor first >>= fun cursor => put cursor second) = put cursor (first ++ second) := by
  obtain ⟨block, i⟩ := cursor
  simp only [put, bind_assoc, pure_bind]
  rw [← writeAt_append, bind_assoc, List.length_append, Nat.add_assoc]

theorem put_bind {α : Type} (cursor : Bytes × Nat) (first second : Bytes)
    (next : Bytes × Nat → Checked α) :
    (put cursor first >>= fun cursor => put cursor second >>= next) =
      (put cursor (first ++ second) >>= next) := by
  rw [← put_put, bind_assoc]

theorem put_nil {cursor : Bytes × Nat} (inside : cursor.2 ≤ cursor.1.length) :
    put cursor [] = .ok cursor := by
  obtain ⟨block, i⟩ := cursor
  rw [put, writeAt_ok (by simpa using inside), ok_bind]
  simp
  rfl

theorem put_front {written bytes rest : Bytes} (fits : bytes.length ≤ rest.length) :
    put (written ++ rest, written.length) bytes =
      .ok (written ++ bytes ++ rest.drop bytes.length, (written ++ bytes).length) := by
  rw [put, writeAt_ok (by rw [List.length_append]; omega), ok_bind, List.take_left,
    List.drop_length_add_append, List.length_append]
  rfl

theorem storeAt_eq_writeAt (block : Bytes) (i : Nat) (c : UInt8) :
    storeAt block i c = writeAt block i [c] := by
  by_cases inside : i < block.length
  · rw [storeAt, if_pos inside, writeAt_ok (by simp; omega),
      List.set_eq_take_append_cons_drop, if_pos inside]
    simp
  · rw [storeAt, if_neg inside, writeAt_fault (by simp; omega)]

/-! ## Searching in a block -/

theorem Points.strchr (points : Points block i s) (c : UInt8) :
    strchr block i c = .ok (if c ∈ s then some (i + s.idxOf c) else none) := by
  rw [Block.strchr, points.stringAt]
  rfl

theorem Points.strchr_found {c : UInt8} {t : Bytes} (points : Points block i (s ++ c :: t))
    (absent : c ∉ s) : Block.strchr block i c = .ok (some (i + s.length)) := by
  rw [points.strchr, if_pos (by simp), List.idxOf_append_of_notMem absent, List.idxOf_cons_self,
    Nat.add_zero]

theorem Points.strchr_absent {c : UInt8} (points : Points block i s) (absent : c ∉ s) :
    Block.strchr block i c = .ok none := by
  rw [points.strchr, if_neg absent]

theorem Points.strstr (points : Points block i s) (needle : Bytes) :
    strstr block i needle =
      .ok ((memmem s needle).map fun rest => i + (s.length - rest.length)) := by
  rw [Block.strstr, points.stringAt]
  rfl

section Tokens

variable {isDelim : UInt8 → Bool} {gap token : Bytes}

theorem takeWhile_gap (p : UInt8 → Bool) {run : Bytes} (inRun : ∀ c ∈ run, p c) (rest : Bytes)
    (stops : ∀ c ∈ rest.head?, ¬ p c) :
    (run ++ rest).takeWhile p = run ∧ (run ++ rest).dropWhile p = rest := by
  rw [List.takeWhile_append_of_pos inRun, List.dropWhile_append_of_pos inRun]
  cases rest with
  | nil => simp
  | cons c rest => simp_all

theorem notMem_takeWhile {c : UInt8} {s : Bytes} : c ∉ s.takeWhile (· != c) := by
  intro inside
  simpa using List.mem_takeWhile_imp inside

theorem takeWhile_absent {c : UInt8} {s : Bytes} (absent : c ∉ s) : s.takeWhile (· != c) = s := by
  rw [List.takeWhile_eq_self_iff]
  intro d inside
  simp only [bne_iff_ne, ne_eq]
  exact fun same => absent (same ▸ inside)

theorem cut_at {c : UInt8} {s : Bytes} (absent : c ∉ s) (rest : Bytes) :
    (s ++ c :: rest).takeWhile (· != c) = s ∧ (s ++ c :: rest).dropWhile (· != c) = c :: rest := by
  refine takeWhile_gap (· != c) (fun d inside => ?_) (c :: rest) (by simp)
  simp only [bne_iff_ne, ne_eq]
  exact fun same => absent (same ▸ inside)

theorem exists_token (isDelim : UInt8 → Bool) (s : Bytes) :
    (∀ c ∈ s, isDelim c) ∨
      ∃ gap token after, s = gap ++ (token ++ after) ∧ (∀ c ∈ gap, isDelim c) ∧ token ≠ [] ∧
        (∀ c ∈ token, ¬ isDelim c) ∧ ∀ c ∈ after.head?, isDelim c := by
  by_cases blank : ∀ c ∈ s, isDelim c
  · exact .inl blank
  · refine .inr ⟨s.takeWhile isDelim, (s.dropWhile isDelim).takeWhile (!isDelim ·),
      (s.dropWhile isDelim).dropWhile (!isDelim ·), ?_, fun c => List.mem_takeWhile_imp, ?_, ?_, ?_⟩
    · rw [List.takeWhile_append_dropWhile, List.takeWhile_append_dropWhile]
    · have starts := List.head?_dropWhile_not isDelim s
      cases rest : s.dropWhile isDelim with
      | nil => exact absurd (List.dropWhile_eq_nil_iff.mp rest) blank
      | cons c rest => simp_all
    · intro c inside
      simpa using List.mem_takeWhile_imp inside
    · intro c first
      have stops := List.head?_dropWhile_not (!isDelim ·) (s.dropWhile isDelim)
      rw [Option.mem_def.mp first] at stops
      simpa using stops

theorem Points.strtokR_none (points : Points block i gap) (blank : ∀ c ∈ gap, isDelim c) :
    strtokR block i isDelim = .ok (none, i + gap.length, block) := by
  obtain ⟨skipped, left⟩ := takeWhile_gap isDelim blank [] (by simp)
  rw [List.append_nil] at skipped left
  simp only [strtokR, points.stringAt, ok_bind, skipped, left, if_true]
  rfl

theorem Points.strtokR_last (points : Points block i (gap ++ token))
    (blank : ∀ c ∈ gap, isDelim c) (nonempty : token ≠ []) (solid : ∀ c ∈ token, ¬ isDelim c) :
    strtokR block i isDelim =
      .ok (some (i + gap.length), i + gap.length + token.length, block) := by
  obtain ⟨skipped, left⟩ := takeWhile_gap isDelim blank token (fun c first =>
    solid c (List.mem_of_head? first))
  obtain ⟨whole, ended⟩ :=
    takeWhile_gap (!isDelim ·) (by simpa using solid : ∀ c ∈ token, _) [] (by simp)
  rw [List.append_nil] at whole ended
  simp only [strtokR, points.stringAt, ok_bind, skipped, left, whole, ended, if_neg nonempty,
    if_true]
  rfl

theorem Points.strtokR_all (points : Points block i s) :
    ∃ stop, strtokR block i (fun _ => false) =
      .ok (if s = [] then none else some i, stop, block) := by
  by_cases empty : s = []
  · subst empty
    exact ⟨_, by simpa using points.strtokR_none (by simp)⟩
  · have asToken : Points block i ([] ++ s) := points
    have whole : strtokR block i (fun _ => false) = .ok (some i, i + s.length, block) :=
      asToken.strtokR_last (by simp) empty (by simp)
    exact ⟨_, by simpa [empty] using whole⟩

theorem Points.strtokR_cut {c : UInt8} {after : Bytes}
    (points : Points block i (gap ++ (token ++ c :: after)))
    (blank : ∀ c ∈ gap, isDelim c) (nonempty : token ≠ []) (solid : ∀ c ∈ token, ¬ isDelim c)
    (delim : isDelim c) :
    ∃ cut, strtokR block i isDelim =
        .ok (some (i + gap.length), i + gap.length + token.length + 1, cut) ∧
      cut.length = block.length ∧ Points cut (i + gap.length) token ∧
      Points cut (i + gap.length + token.length + 1) after ∧
      ∀ j u, Points block j u → j + u.length < i → Points cut j u := by
  obtain ⟨cut, stored, sameLength, pointsToken, pointsAfter, frame⟩ := points.suffix.storeAt
  obtain ⟨skipped, left⟩ := takeWhile_gap isDelim blank (token ++ c :: after) (by
    obtain ⟨first, more, rfl⟩ := List.exists_cons_of_ne_nil nonempty
    simp_all)
  obtain ⟨whole, ended⟩ :=
    takeWhile_gap (!isDelim ·) (by simpa using solid : ∀ c ∈ token, _) (c :: after) (by simp [delim])
  refine ⟨cut, ?_, sameLength, pointsToken, pointsAfter, fun j u there early =>
    frame j u there (early.trans_le (Nat.le_add_right _ _))⟩
  simp only [strtokR, points.stringAt, ok_bind, skipped, left, whole, ended, stored,
    List.append_eq_nil_iff, reduceCtorEq, and_false, if_false]
  rfl

end Tokens

end ProxyServer.Lib.Block
