import ProxyServer.CString
import ProxyServer.Lib.Prefix

namespace ProxyServer
open Lib

structure ContentFilter where
  enabled : Bool
  contentTypes : List Bytes
  blockPage : Bytes

/-- The bytes before the end of the line: a "\r\n" if there is one anywhere, else a "\n". -/
def untilLineEnd (val : Bytes) : Bytes :=
  match memmem val (ascii "\r\n") with
  | some rest => val.take (val.length - rest.length)
  | none =>
      match memmem val (ascii "\n") with
      | some rest => val.take (val.length - rest.length)
      | none => val

def blank (c : UInt8) : Bool := c == 32 || c == 9

def endOfValue (c : UInt8) : Bool := c == 32 || c == 9 || c == 13 || c == 10

/-- `buf` is all that has been received, body included. The value is cut to the 255 bytes that
`out` has room for. -/
def parseContentTypeHeader (buf : Bytes) : Option Bytes :=
  (memmem buf (ascii "Content-Type:")).map fun header =>
    let val := (header.drop 13).dropWhile blank
    ((untilLineEnd val).take 255).rdropWhile endOfValue

def filterIsContentTypeBlocked (f : ContentFilter) (contentType : Bytes) : Bool :=
  f.enabled && (strtok 44 ((cstr contentType).take 127)).any fun token =>
    let trim := (token.dropWhile isspace).rdropWhile isspace
    f.contentTypes.any fun blocked => (memmem trim blocked).isSome

def defaultBlockPage : Bytes :=
  ascii "<HTML><HEAD><TITLE>403 Forbidden</TITLE></HEAD>\n" ++
    ascii "<BODY><H1>403 Forbidden</H1><br>Permission Denied\n</BODY></HTML>"

def filterGetBlockPage (f : ContentFilter) : Bytes :=
  if f.enabled then f.blockPage else defaultBlockPage

def contentBlocked (f : ContentFilter) (response : Bytes) : Bool :=
  (parseContentTypeHeader response).any (filterIsContentTypeBlocked f)

def headerLines (response : Bytes) : List Bytes :=
  ((response.splitOn 10).map fun line => if line.getLast? = some 13 then line.dropLast else line)
    |>.tail.takeWhile (· != [])

def contentTypeField (line : Bytes) : Option Bytes :=
  if line.contains 58 && (line.takeWhile (· != 58)).map tolower == ascii "content-type" then
    some ((line.dropWhile (· != 58)).drop 1)
  else none

def declaresBlocked (f : ContentFilter) (response : Bytes) : Bool :=
  f.enabled && (headerLines response).any fun line =>
    (contentTypeField line).any fun value =>
      f.contentTypes.any fun blocked => (memmem value blocked).isSome

theorem memmem_mono {hay hay' needle : Bytes} (isPrefix : hay <+: hay')
    (found : (memmem hay needle).isSome = true) : (memmem hay' needle).isSome = true := by
  obtain ⟨more, rfl⟩ := isPrefix
  obtain ⟨rest, isRest⟩ := Option.isSome_iff_exists.mp found
  rw [memmem_append isRest]
  rfl

theorem filterIsContentTypeBlocked_mono {f : ContentFilter} {contentType contentType' : Bytes}
    (isPrefix : contentType <+: contentType')
    (blocked : filterIsContentTypeBlocked f contentType = true) :
    filterIsContentTypeBlocked f contentType' = true := by
  simp only [filterIsContentTypeBlocked, Bool.and_eq_true, List.any_eq_true, strtok,
    List.mem_filter] at blocked ⊢
  obtain ⟨enabled, token, ⟨member, nonempty⟩, entry, listed, found⟩ := blocked
  obtain ⟨whole, memberWhole, begins⟩ := splitOn_mono ((takeWhile_mono isPrefix).take 127) member
  refine ⟨enabled, whole, ⟨memberWhole, ?_⟩, entry, listed, ?_⟩
  · simp only [bne_iff_ne, ne_eq] at nonempty ⊢
    intro empty
    rw [empty, List.prefix_nil] at begins
    exact nonempty begins
  · exact memmem_mono (rdropWhile_mono (dropWhile_mono begins)) found

theorem memmem_append_of_none {hay more needle rest before : Bytes}
    (absent : memmem hay needle = none) (found : memmem (hay ++ more) needle = some rest)
    (split : hay ++ more = before ++ rest) :
    hay <+: before ∨ ∃ part, hay = before ++ part ∧ part <+: needle ∧ part ≠ needle := by
  cases List.append_eq_append_iff.mp split with
  | inl past =>
      obtain ⟨gap, isBefore, _⟩ := past
      exact .inl ⟨gap, isBefore.symm⟩
  | inr within =>
      obtain ⟨part, isHay, isRest⟩ := within
      right
      have notAll : ¬ needle <+: part := by
        intro starts
        apply memmem_eq_none.mp absent
        rw [isHay]
        exact starts.isInfix.trans (List.suffix_append before part).isInfix
      have begins : needle <+: part ++ more := isRest ▸ memmem_starts found
      refine ⟨part, isHay, ?_, ?_⟩
      · exact (List.prefix_or_prefix_of_prefix begins (List.prefix_append part more)).resolve_left
          notAll
      · intro whole
        exact notAll (whole ▸ List.prefix_refl _)

theorem untilLineEnd_crlf {before rest : Bytes}
    (found : memmem (before ++ rest) (ascii "\r\n") = some rest) :
    untilLineEnd (before ++ rest) = before := by
  simp [untilLineEnd, found]

theorem untilLineEnd_lf {before rest : Bytes}
    (absent : memmem (before ++ rest) (ascii "\r\n") = none)
    (found : memmem (before ++ rest) (ascii "\n") = some rest) :
    untilLineEnd (before ++ rest) = before := by
  simp [untilLineEnd, absent, found]

theorem untilLineEnd_none {val : Bytes} (noCrlf : memmem val (ascii "\r\n") = none)
    (noLf : memmem val (ascii "\n") = none) : untilLineEnd val = val := by
  simp [untilLineEnd, noCrlf, noLf]

theorem untilLineEnd_begins (val : Bytes) : untilLineEnd val <+: val := by
  unfold untilLineEnd
  split
  · exact List.take_prefix _ _
  · split
    · exact List.take_prefix _ _
    · exact List.prefix_refl _

theorem untilLineEnd_concat {before : Bytes}
    (absent : memmem (before ++ [13]) (ascii "\r\n") = none) :
    untilLineEnd (before ++ [13]) <+: before ∨ untilLineEnd (before ++ [13]) = before ++ [13] := by
  cases lf : memmem (before ++ [13]) (ascii "\n") with
  | none => exact .inr (untilLineEnd_none absent lf)
  | some rest =>
      obtain ⟨line, split⟩ := memmem_suffix lf
      have starts := memmem_starts lf
      left
      rw [← split] at absent lf ⊢
      rw [untilLineEnd_lf absent lf]
      have shorter : line ≠ before ++ [13] := by
        intro whole
        have empty : rest = [] := List.append_right_eq_self.mp (whole ▸ split)
        rw [empty] at starts
        exact absurd starts (by decide)
      have isPrefix : line <+: before ++ [13] := ⟨rest, split⟩
      exact (List.prefix_concat_iff.mp isPrefix).resolve_left shorter

theorem untilLineEnd_append_found {val rest : Bytes}
    (found : memmem val (ascii "\r\n") = some rest) (more : Bytes) :
    untilLineEnd (val ++ more) = untilLineEnd val := by
  obtain ⟨before, rfl⟩ := memmem_suffix found
  have found' := memmem_append found more
  rw [List.append_assoc] at found' ⊢
  rw [untilLineEnd_crlf found, untilLineEnd_crlf found']

theorem untilLineEnd_append_lf {val more : Bytes} (absent : memmem val (ascii "\r\n") = none)
    (absent' : memmem (val ++ more) (ascii "\r\n") = none) :
    untilLineEnd val <+: untilLineEnd (val ++ more) := by
  cases lf : memmem val (ascii "\n") with
  | some rest =>
      obtain ⟨before, rfl⟩ := memmem_suffix lf
      have lf' := memmem_append lf more
      rw [List.append_assoc] at absent' lf' ⊢
      rw [untilLineEnd_lf absent lf, untilLineEnd_lf absent' lf']
  | none =>
      rw [untilLineEnd_none absent lf]
      cases lf' : memmem (val ++ more) (ascii "\n") with
      | none =>
          rw [untilLineEnd_none absent' lf']
          exact List.prefix_append _ _
      | some rest' =>
          obtain ⟨before', split⟩ := memmem_suffix lf'
          have past := memmem_append_of_none lf lf' split.symm
          rw [← split] at absent' lf' ⊢
          rw [untilLineEnd_lf absent' lf']
          cases past with
          | inl past => exact past
          | inr within =>
              obtain ⟨part, isVal, begins, notAll⟩ := within
              have empty : part = [] := by
                have proper : part <+: [] := by
                  exact (List.prefix_concat_iff.mp begins).resolve_left notAll
                exact List.prefix_nil.mp proper
              rw [isVal, empty, List.append_nil]

/-- Where the bytes so far end between the "\r" and the "\n", the value loses its last byte. -/
theorem untilLineEnd_append (val more : Bytes) :
    untilLineEnd val <+: untilLineEnd (val ++ more) ∨
      untilLineEnd val = untilLineEnd (val ++ more) ++ [13] := by
  cases crlf : memmem val (ascii "\r\n") with
  | some rest => simp [untilLineEnd_append_found crlf]
  | none =>
      cases crlf' : memmem (val ++ more) (ascii "\r\n") with
      | none => exact .inl (untilLineEnd_append_lf crlf crlf')
      | some rest' =>
          obtain ⟨before', split⟩ := memmem_suffix crlf'
          have past := memmem_append_of_none crlf crlf' split.symm
          rw [← split] at crlf' ⊢
          rw [untilLineEnd_crlf crlf']
          cases past with
          | inl past => exact .inl ((untilLineEnd_begins val).trans past)
          | inr within =>
              obtain ⟨part, isVal, begins, notAll⟩ := within
              have proper : part <+: [] ++ [13] :=
                (List.prefix_concat_iff.mp begins).resolve_left notAll
              cases List.prefix_concat_iff.mp proper with
              | inl half =>
                  rw [half, List.nil_append] at isVal
                  rw [isVal] at crlf ⊢
                  exact untilLineEnd_concat crlf
              | inr empty =>
                  rw [List.prefix_nil.mp empty, List.append_nil] at isVal
                  exact .inl (isVal ▸ untilLineEnd_begins val)

theorem trimmed_append (val more : Bytes) :
    ((untilLineEnd val).take 255).rdropWhile endOfValue <+:
      ((untilLineEnd (val ++ more)).take 255).rdropWhile endOfValue := by
  cases untilLineEnd_append val more with
  | inl begins => exact rdropWhile_mono (begins.take 255)
  | inr half =>
      rw [half, List.take_append]
      cases 255 - (untilLineEnd (val ++ more)).length with
      | zero => simp
      | succ room =>
          rw [List.take_of_length_le (by simp : [(13 : UInt8)].length ≤ room + 1),
            List.rdropWhile_concat_pos _ _ _ (by decide)]

theorem parseContentTypeHeader_append {buf value : Bytes}
    (parsed : parseContentTypeHeader buf = some value) (more : Bytes) :
    ∃ value', parseContentTypeHeader (buf ++ more) = some value' ∧ value <+: value' := by
  rw [parseContentTypeHeader, Option.map_eq_some_iff] at parsed
  obtain ⟨header, found, rfl⟩ := parsed
  rw [parseContentTypeHeader, memmem_append found, Option.map_some]
  have long : 13 ≤ header.length := (memmem_starts found).length_le
  obtain ⟨tail, isTail⟩ := dropWhile_mono (p := blank) (List.prefix_append (header.drop 13) more)
  rw [List.drop_append_of_le_length long]
  apply Exists.intro
  refine ⟨rfl, ?_⟩
  rw [← isTail]
  exact trimmed_append _ _

theorem contentBlocked_append {f : ContentFilter} {response : Bytes}
    (blocked : contentBlocked f response = true) (more : Bytes) :
    contentBlocked f (response ++ more) = true := by
  rw [contentBlocked, Option.any_eq_true] at blocked ⊢
  obtain ⟨value, parsed, isBlocked⟩ := blocked
  obtain ⟨value', parsed', begins⟩ := parseContentTypeHeader_append parsed more
  exact ⟨value', parsed', filterIsContentTypeBlocked_mono begins isBlocked⟩

end ProxyServer
