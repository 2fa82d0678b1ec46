import ProxyServer.Request.Mediation

namespace ProxyServer
open Lib

def headersEnd : Bytes := ascii "\r\n\r\n"

def h2Preface : Bytes := ascii "PRI * HTTP/2.0\r\n\r\nSM\r\n\r\n"

def headOf (stream : Bytes) : Bytes :=
  match memmem stream headersEnd with
  | none => stream
  | some rest => stream.take (stream.length - rest.length + 4)

/-- `none` for raw TLS or h2c, else what is parsed and the key for the cache. -/
def outcome (maxBytes : Nat) (segments : List Bytes) : Option (Bytes × Bytes) :=
  (receiveRequest maxBytes segments).map fun received =>
    (bufferString maxBytes received, requestString received)

def Splits (stream : Bytes) (segments : List Bytes) : Prop :=
  (∀ segment ∈ segments, segment ≠ []) ∧ segments.flatten = stream

def FramingIndependent (maxBytes : Nat) (stream : Bytes) : Prop :=
  ∀ segments segments', Splits stream segments → Splits stream segments' →
    outcome maxBytes segments = outcome maxBytes segments'

variable {stream : Bytes}

theorem rejected_iff {buffer : Bytes} :
    rejected buffer = true ↔ buffer.head? = some 0x16 ∨ h2Preface <+: buffer := by
  rw [rejected, Bool.or_eq_true, List.isPrefixOf_iff_prefix, decide_eq_true_iff, h2Preface]

theorem headOf_append {received : Bytes} (ends : headersEnd <:+: received) (more : Bytes) :
    headOf (received ++ more) = headOf received := by
  obtain ⟨rest, found⟩ := Option.ne_none_iff_exists'.mp fun absent => memmem_eq_none.mp absent ends
  have starts := (memmem_starts found).length_le
  have short := (memmem_suffix found).length_le
  have four : headersEnd.length = 4 := rfl
  rw [headOf, headOf, found, memmem_append found]
  simp only [List.length_append]
  rw [List.take_append_of_le_length (by omega)]
  congr 1
  omega

theorem headOf_prefix (stream : Bytes) : headOf stream <+: stream := by
  rw [headOf]
  split
  · exact List.prefix_refl _
  · exact List.take_prefix _ _

theorem headersEnd_headOf {stream : Bytes} (ends : headersEnd <:+: stream) :
    headersEnd <:+: headOf stream := by
  obtain ⟨rest, found⟩ := Option.ne_none_iff_exists'.mp fun absent => memmem_eq_none.mp absent ends
  obtain ⟨before, whole⟩ := memmem_suffix found
  obtain ⟨after, starts⟩ := memmem_starts found
  subst starts
  subst whole
  rw [headOf, found]
  refine ⟨before, [], ?_⟩
  have four : headersEnd.length = 4 := rfl
  have cut : (before ++ (headersEnd ++ after)).length - (headersEnd ++ after).length + 4 =
      (before ++ headersEnd).length := by
    simp only [List.length_append]
    omega
  simp only [cut]
  rw [← List.append_assoc before, List.take_left, List.append_nil]

theorem nonempty_of_ends (ends : headersEnd <:+: stream) : stream ≠ [] := by
  rintro rfl
  exact absurd ends.length_le (by decide)

theorem readHeaders_spec {maxBytes : Nat} {segments : List Bytes} {buffer : Bytes}
    (short : (buffer ++ segments.flatten).length < maxBytes)
    (ends : headersEnd <:+: buffer ++ segments.flatten) :
    readHeaders maxBytes buffer segments <+: buffer ++ segments.flatten ∧
      headersEnd <:+: readHeaders maxBytes buffer segments := by
  induction segments generalizing buffer with
  | nil =>
      rw [List.flatten_nil, List.append_nil] at ends ⊢
      exact ⟨List.prefix_refl _, ends⟩
  | cons segment segments ih =>
      rw [readHeaders]
      split
      · rw [List.flatten_cons, ← List.append_assoc] at short ends ⊢
        exact ih short ends
      · rename_i stopped
        refine ⟨List.prefix_append _ _, ?_⟩
        by_contra absent
        refine stopped ⟨?_, memmem_eq_none.mpr absent⟩
        rw [List.length_append] at short
        omega

theorem headOf_readHeaders {maxBytes : Nat} {segments : List Bytes} {buffer : Bytes}
    (short : (buffer ++ segments.flatten).length < maxBytes)
    (ends : headersEnd <:+: buffer ++ segments.flatten) :
    headOf (buffer ++ segments.flatten) <+: readHeaders maxBytes buffer segments := by
  obtain ⟨⟨more, whole⟩, here⟩ := readHeaders_spec short ends
  rw [← whole, headOf_append here]
  exact headOf_prefix _

theorem outcome_cons {maxBytes : Nat} {first : Bytes} {rest : List Bytes}
    (short : (first ++ rest.flatten).length < maxBytes)
    (ends : headersEnd <:+: first ++ rest.flatten) :
    outcome maxBytes (first :: rest) =
      if rejected first then none
      else some (requestString (readHeaders maxBytes first rest),
        requestString (readHeaders maxBytes first rest)) := by
  have read := (readHeaders_spec short ends).1.length_le
  rw [outcome, receiveRequest]
  split
  · rfl
  · rw [Option.map_some, bufferString_eq (by omega)]

theorem requestString_eq (received : Bytes) : requestString received = cstr received := by
  rw [requestString, cstr_append_zero]

theorem cstr_begins {front whole : Bytes} (starts : front <+: whole) : cstr front <+: cstr whole := by
  obtain ⟨more, rfl⟩ := starts
  rw [cstr, cstr, List.takeWhile_append]
  split
  · rename_i all
    rw [(List.takeWhile_prefix (· != 0)).eq_of_length all]
    exact List.prefix_append _ _
  · exact List.prefix_refl _

theorem cstr_between {front middle whole : Bytes} (below : front <+: middle)
    (above : middle <+: whole) (same : cstr whole = cstr front) : cstr middle = cstr front := by
  have upper := (cstr_begins above).length_le
  have lower := cstr_begins below
  rw [same] at upper
  exact (lower.eq_of_length_le upper).symm

theorem splits_whole {stream : Bytes} (nonempty : stream ≠ []) : Splits stream [stream] := by
  simp [Splits, nonempty]

theorem splits_pair {front back : Bytes} (hasFront : front ≠ []) (hasBack : back ≠ []) :
    Splits (front ++ back) [front, back] := by
  simp [Splits, hasFront, hasBack]

theorem outcome_of_tls {maxBytes : Nat} {segments : List Bytes} (tls : stream.head? = some 0x16)
    (splits : Splits stream segments) : outcome maxBytes segments = none := by
  cases segments with
  | nil => rfl
  | cons first rest =>
      obtain ⟨nonempty, rfl⟩ := splits
      obtain ⟨c, tail, rfl⟩ := List.exists_cons_of_ne_nil (nonempty first (List.mem_cons_self ..))
      have refused : rejected (c :: tail) = true := rejected_iff.mpr (.inl tls)
      rw [outcome, receiveRequest, if_pos refused, Option.map_none]

theorem accepted_of_clear {first : Bytes} {rest : List Bytes}
    (splits : Splits stream (first :: rest)) (noTls : stream.head? ≠ some 0x16)
    (noPreface : ¬ h2Preface <+: stream) : rejected first = false := by
  obtain ⟨nonempty, rfl⟩ := splits
  obtain ⟨c, tail, rfl⟩ := List.exists_cons_of_ne_nil (nonempty first (List.mem_cons_self ..))
  rw [Bool.eq_false_iff]
  intro refused
  cases rejected_iff.mp refused with
  | inl tls => exact noTls tls
  | inr preface => exact noPreface (preface.trans (List.prefix_append _ _))

theorem outcome_of_clear {maxBytes : Nat} {segments : List Bytes}
    (short : stream.length < maxBytes) (ends : headersEnd <:+: stream)
    (noTls : stream.head? ≠ some 0x16) (noPreface : ¬ h2Preface <+: stream)
    (quiet : cstr stream = cstr (headOf stream)) (splits : Splits stream segments) :
    outcome maxBytes segments = some (cstr stream, cstr stream) := by
  cases segments with
  | nil => exact absurd splits.2.symm (nonempty_of_ends ends)
  | cons first rest =>
      have whole : first ++ rest.flatten = stream := splits.2
      rw [← whole] at short ends
      rw [outcome_cons short ends, accepted_of_clear splits noTls noPreface]
      have above := (readHeaders_spec short ends).1
      have below := headOf_readHeaders short ends
      rw [whole] at above below
      have same := cstr_between below above quiet
      rw [requestString_eq, same, ← quiet]
      rfl

theorem no_preface_of_independent {maxBytes : Nat} (short : stream.length < maxBytes)
    (ends : headersEnd <:+: stream) (noTls : stream.head? ≠ some 0x16)
    (independent : FramingIndependent maxBytes stream) : ¬ h2Preface <+: stream := by
  rintro ⟨more, rfl⟩
  have whole : outcome maxBytes [h2Preface ++ more] = none := by
    rw [outcome, receiveRequest, if_pos (rejected_iff.mpr (.inr (List.prefix_append _ _))),
      Option.map_none]
  obtain ⟨c, tail, cut⟩ : ∃ c tail, h2Preface ++ more = c :: tail ∧ tail ≠ [] :=
    ⟨80, ascii "RI * HTTP/2.0\r\n\r\nSM\r\n\r\n" ++ more, rfl, by simp [ascii]⟩
  have pieces : outcome maxBytes [[c], tail] ≠ none := by
    have first : rejected [c] = false := by
      rw [Bool.eq_false_iff]
      intro refused
      cases rejected_iff.mp refused with
      | inl tls => exact noTls (by rw [cut.1]; exact tls)
      | inr preface => exact absurd preface.length_le (by simp [h2Preface, ascii])
    rw [cut.1] at short ends
    rw [outcome_cons (by simpa using short) (by simpa using ends), first]
    exact Option.some_ne_none _
  refine pieces (whole ▸ independent _ _ ?_ (splits_whole ?_))
  · rw [cut.1]
    exact splits_pair (List.cons_ne_nil _ _) cut.2
  · rw [cut.1]
    exact List.cons_ne_nil _ _

theorem quiet_of_independent {maxBytes : Nat} (short : stream.length < maxBytes)
    (ends : headersEnd <:+: stream) (noTls : stream.head? ≠ some 0x16)
    (noPreface : ¬ h2Preface <+: stream) (independent : FramingIndependent maxBytes stream) :
    cstr stream = cstr (headOf stream) := by
  obtain ⟨more, cut⟩ := headOf_prefix stream
  by_cases complete : more = []
  · rw [complete, List.append_nil] at cut
    rw [cut]
  · have inside := headersEnd_headOf ends
    have pair : Splits stream [headOf stream, more] := by
      have pair := splits_pair (nonempty_of_ends inside) complete
      rwa [cut] at pair
    have single : Splits stream [stream] := splits_whole (nonempty_of_ends ends)
    have found : memmem (headOf stream) (ascii "\r\n\r\n") ≠ none := fun absent =>
      memmem_eq_none.mp absent inside
    have same := independent _ _ single pair
    rw [outcome_cons (by simpa using short) (by simpa using ends),
      outcome_cons (by simpa [cut] using short) (by simpa [cut] using ends),
      accepted_of_clear single noTls noPreface, accepted_of_clear pair noTls noPreface] at same
    simp only [readHeaders, found, and_false, if_false, requestString_eq, Bool.false_eq_true,
      Option.some.injEq, Prod.mk.injEq, and_self] at same
    exact same

theorem framingIndependent_iff {maxBytes : Nat} {stream : Bytes} (short : stream.length < maxBytes)
    (ends : headersEnd <:+: stream) :
    FramingIndependent maxBytes stream ↔
      stream.head? = some 0x16 ∨
        ¬ h2Preface <+: stream ∧ cstr stream = cstr (headOf stream) := by
  by_cases tls : stream.head? = some 0x16
  · refine iff_of_true ?_ (.inl tls)
    intro segments segments' splits splits'
    rw [outcome_of_tls tls splits, outcome_of_tls tls splits']
  · constructor
    · intro independent
      have noPreface := no_preface_of_independent short ends tls independent
      exact .inr ⟨noPreface, quiet_of_independent short ends tls noPreface independent⟩
    · rintro (first | ⟨noPreface, quiet⟩) segments segments' splits splits'
      · exact absurd first tls
      · rw [outcome_of_clear short ends tls noPreface quiet splits,
          outcome_of_clear short ends tls noPreface quiet splits']

theorem get_framingIndependent :
    FramingIndependent 4096 (ascii "GET http://a/ HTTP/1.1\r\nHost: a\r\n\r\n") :=
  (framingIndependent_iff (by decide) (by decide)).mpr (.inr ⟨by decide, by decide⟩)

theorem preface_in_two_pieces :
    Splits h2Preface [h2Preface] ∧ Splits h2Preface [h2Preface.take 1, h2Preface.drop 1] ∧
      outcome 4096 [h2Preface] = none ∧
      (outcome 4096 [h2Preface.take 1, h2Preface.drop 1]).isSome = true ∧
      ¬ FramingIndependent 4096 h2Preface := by
  have single : Splits h2Preface [h2Preface] := splits_whole (by decide)
  have pair : Splits h2Preface [h2Preface.take 1, h2Preface.drop 1] :=
    splits_pair (by decide) (by decide)
  have whole : outcome 4096 [h2Preface] = none := by decide
  have pieces : (outcome 4096 [h2Preface.take 1, h2Preface.drop 1]).isSome = true := by decide
  refine ⟨single, pair, whole, pieces, ?_⟩
  intro independent
  rw [← independent _ _ single pair, whole] at pieces
  exact absurd pieces (by decide)

end ProxyServer
