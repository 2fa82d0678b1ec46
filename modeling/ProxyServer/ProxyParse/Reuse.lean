import ProxyServer.ProxyParse.Parse

namespace ProxyServer.ProxyParse
open Lib Lib.Block Lib.Lines

def Early (buf : Bytes) : Prop :=
  buf.length < MIN_REQ_LEN ∨ buf.length > MAX_REQ_LEN ∨ memmem (cstr buf) (crlf ++ crlf) = none

instance (buf : Bytes) : Decidable (Early buf) := inferInstanceAs (Decidable (_ ∨ _))

def buflenAfter (parse : ParsedRequest) (buflen : Nat) (buf : Bytes) : Nat :=
  if parse.buf = none ∧ ¬ Early buf then (lineOf (cstr buf)).length + 1 else buflen

/-- Every further request gives what it gives with a new object. -/
def Clean (parse : ParsedRequest) : Prop :=
  ∃ word, ∀ errno request,
    parsedRequestParse errno parse request =
      parsedRequestParse errno (parsedRequestCreate word) request

def CleanWithBuflen (parse : ParsedRequest) (buflen : Nat) : Prop :=
  ∃ word, ∀ errno request,
    parsedRequestParse errno parse request =
        parsedRequestParse errno (parsedRequestCreate word) request ∧
      buflenAfter parse buflen request = buflenAfter (parsedRequestCreate word) 0 request

def Gives {α : Type} (p : α → Prop) (x : Checked α) : Prop := ∀ a, x = .ok a → p a

section Gives

variable {α β : Type} {p : β → Prop}

theorem Gives.pure {b : β} (given : p b) : Gives p (.ok b) := by
  intro b' same
  rwa [← Except.ok.inj same]

theorem Gives.bind {x : Checked α} {f : α → Checked β} (all : ∀ a, x = .ok a → Gives p (f a)) :
    Gives p (x >>= f) := by
  intro b done
  obtain ⟨a, isA, done⟩ := exists_of_bind done
  exact all a isA b done

theorem Gives.error {fault : Fault} : Gives p (.error fault) := by
  intro b failed
  cases failed

end Gives

variable {parse : ParsedRequest} {errno : Int} {block : Bytes} {fullAddr : Nat}

theorem parseConnect_method :
    Gives (fun result => result.1.method = parse.method) (parseConnect parse block fullAddr) := by
  rw [parseConnect]
  refine Gives.bind fun first _ => ?_
  split
  · refine Gives.bind fun found _ => ?_
    cases found with
    | none => exact Gives.pure rfl
    | some endBracket =>
        refine Gives.bind fun buf _ => Gives.bind fun host _ => Gives.bind fun next _ => ?_
        split
        · exact Gives.bind fun port _ => Gives.pure rfl
        · exact Gives.pure rfl
  · refine Gives.bind ?_
    rintro ⟨host, saveptr, buf⟩ -
    refine Gives.bind ?_
    rintro ⟨port, after, buf'⟩ -
    cases host with
    | none => exact Gives.pure rfl
    | some host =>
        cases port with
        | none => exact Gives.pure rfl
        | some port =>
            refine Gives.bind fun text _ => ?_
            split <;> exact Gives.pure rfl

theorem parseAuthority_method :
    Gives (fun result => result.1.method = parse.method) (parseAuthority errno parse block) := by
  rw [parseAuthority]
  refine Gives.bind fun first _ => ?_
  split
  · refine Gives.bind fun found _ => ?_
    cases found with
    | none => exact Gives.bind fun host _ => Gives.pure rfl
    | some endBracket =>
        refine Gives.bind fun colon _ => ?_
        have shifted (port : Port) (host : Bytes) :
            Gives (fun result => result.1.method = parse.method) do
              let host ← writeAt host 0 (← copyAt host 1 (endBracket - 1))
              let host ← storeAt host (endBracket - 1) 0
              return ({ parse with host := some (.owned (← stringAt host 0)), port }, true) :=
          Gives.bind fun name _ => Gives.bind fun moved _ => Gives.bind fun cut _ =>
            Gives.bind fun host _ => Gives.pure rfl
        cases colon with
        | none => exact shifted parse.port block
        | some colon => exact Gives.bind fun host _ => Gives.bind fun port _ => shifted _ host
  · refine Gives.bind fun found _ => ?_
    cases found with
    | none => exact Gives.bind fun host _ => Gives.pure rfl
    | some colon =>
        refine Gives.bind fun cut _ => Gives.bind fun port _ => Gives.bind fun host _ => ?_
        dsimp only
        split <;> exact Gives.pure rfl

theorem parseAbsolute_method {protoEnd : Nat} :
    Gives (fun result => result.1.method = parse.method)
      (parseAbsolute errno parse block fullAddr protoEnd) := by
  rw [parseAbsolute]
  refine Gives.bind fun protocol _ => Gives.bind fun path _ => ?_
  cases path with
  | none => exact Gives.pure rfl
  | some pathStart =>
      dsimp only
      split
      · exact Gives.pure rfl
      · exact Gives.bind fun host _ => Gives.bind fun path _ => parseAuthority_method

theorem parseGet_method :
    Gives (fun result => result.1.method = parse.method) (parseGet errno parse block fullAddr) := by
  rw [parseGet]
  refine Gives.bind fun address _ => Gives.bind fun found _ => ?_
  cases found with
  | none => exact Gives.bind fun first _ => Gives.bind fun target _ => Gives.pure rfl
  | some protoEnd => exact parseAbsolute_method

theorem parseTarget_method :
    Gives (fun result => result.1.method = parse.method) (parseTarget errno parse fullAddr) := by
  rw [parseTarget]
  split
  · exact Gives.error
  · refine Gives.bind fun method _ => ?_
    split
    · exact parseConnect_method
    · exact parseGet_method

theorem parseRequestLine_method {line : Bytes} {method : Option Nat} {saveptr : Nat}
    (first : strtokR (line ++ [0]) 0 (· == 32) = .ok (method, saveptr, block)) :
    Gives (fun result => result.1.method = method) (parseRequestLine parse line) := by
  rw [parseRequestLine, first, ok_bind]
  cases method with
  | none => exact Gives.pure rfl
  | some start =>
      refine Gives.bind fun name _ => ?_
      split
      · exact Gives.pure rfl
      · refine Gives.bind ?_
        rintro ⟨fullAddr, after, buf⟩ -
        cases fullAddr with
        | none => exact Gives.pure rfl
        | some fullAddr =>
            refine Gives.bind fun address _ => Gives.bind fun text _ => ?_
            dsimp only
            split <;> exact Gives.pure rfl

theorem parsedHeaderSet_method {key value : Bytes} :
    Gives (fun pr => pr.method = parse.method) (parsedHeaderSet parse key value) := by
  obtain ⟨same, -⟩ := sameLine_parsedHeaderRemove parse key
  have kept : (parsedHeaderRemove parse key).2.method = parse.method := by rw [same]
  rw [parsedHeaderSet]
  split <;> split
  · exact Gives.pure kept
  · exact Gives.error
  · exact Gives.pure kept
  · exact Gives.error

theorem parsedHeaderParse_method {line : Nat} :
    Gives (fun result => result.2.method = parse.method) (parsedHeaderParse parse block line) := by
  rw [parsedHeaderParse]
  refine Gives.bind fun index1 _ => ?_
  cases index1 with
  | none => exact Gives.pure rfl
  | some index1 =>
      exact Gives.bind fun key _ => Gives.bind fun found _ => Gives.bind fun index2 _ =>
        Gives.bind fun value _ => Gives.bind fun pr stored =>
          Gives.pure (parsedHeaderSet_method pr stored)

theorem headerLoop_method {fuel i : Nat} :
    Gives (fun result => result.2.method = parse.method) (headerLoop block fuel i parse) := by
  induction fuel generalizing i parse with
  | zero => exact Gives.error
  | succ fuel ih =>
      rw [headerLoop]
      refine Gives.bind fun first _ => ?_
      split
      · exact Gives.pure rfl
      split
      on_goal 1 =>
        refine Gives.bind fun second _ => ?_
        split
        · exact Gives.pure rfl
      -- The line is read whether or not its second byte has been looked at.
      all_goals
        refine Gives.bind ?_
        rintro ⟨failed, parse'⟩ parsed
        have kept : parse'.method = parse.method := parsedHeaderParse_method _ parsed
        dsimp only
        split
        · exact Gives.pure kept
        · refine Gives.bind fun next _ => ?_
          cases next with
          | none => exact Gives.pure kept
          | some next =>
              refine Gives.bind fun rest _ => ?_
              split
              · exact Gives.pure kept
              · rw [← kept]
                exact ih

theorem parseHost_method :
    Gives (fun result => result.2.method = parse.method) (parseHost parse) := by
  rw [parseHost]
  split
  · exact Gives.pure rfl
  · refine Gives.bind fun whole _ => Gives.bind fun first _ => ?_
    split
    · refine Gives.bind fun endBracket _ => ?_
      cases endBracket with
      | none => exact Gives.pure rfl
      | some endBracket =>
          refine Gives.bind fun colon _ => ?_
          cases colon with
          | none => exact Gives.bind fun port _ => Gives.bind fun host _ => Gives.pure rfl
          | some colon => exact Gives.bind fun port _ => Gives.bind fun host _ => Gives.pure rfl
    · refine Gives.bind fun colon _ => ?_
      cases colon with
      | none => exact Gives.pure rfl
      | some colon => exact Gives.bind fun host _ => Gives.bind fun port _ => Gives.pure rfl

theorem parseLines_method {tmpBuf line : Bytes} {method : Option Nat} {saveptr : Nat}
    (first : strtokR (line ++ [0]) 0 (· == 32) = .ok (method, saveptr, block)) :
    Gives (fun result => result.2.method = method) (parseLines errno parse tmpBuf line) := by
  rw [parseLines]
  refine Gives.bind ?_
  rintro ⟨parse₁, address⟩ parsed
  have kept₁ : parse₁.method = method := parseRequestLine_method first _ parsed
  cases address with
  | none => exact Gives.pure kept₁
  | some fullAddr =>
      refine Gives.bind ?_
      rintro ⟨parse₂, goesOn⟩ targeted
      have kept₂ : parse₂.method = method := (parseTarget_method _ targeted).trans kept₁
      cases goesOn with
      | false => exact Gives.pure kept₂
      | true =>
          refine Gives.bind fun found _ => Gives.bind fun index _ => Gives.bind ?_
          rintro ⟨ret, parse₃⟩ looped
          have kept₃ : parse₃.method = method := (headerLoop_method _ looped).trans kept₂
          dsimp only
          split
          · refine Gives.bind fun name _ => ?_
            split
            · intro result hosted
              exact (parseHost_method result hosted).trans kept₃
            · exact Gives.pure kept₃
          · exact Gives.pure kept₃

variable {buf : Bytes} {word : Nat} {pr : ParsedRequest}

theorem early_iff : Early buf ↔
    buf.length < MIN_REQ_LEN ∨ buf.length > MAX_REQ_LEN ∨ ¬ crlf ++ crlf <:+: cstr buf := by
  rw [Early, memmem_eq_none]

theorem clean_create (word : Nat) : Clean (parsedRequestCreate word) :=
  ⟨word, fun _ _ => rfl⟩

theorem Clean.eq_create (clean : Clean parse) : ∃ word, parse = parsedRequestCreate word := by
  obtain ⟨word, same⟩ := clean
  have empty (pr : ParsedRequest) : parsedRequestParse 0 pr [] = .ok (-1, pr) := by
    by_cases fresh : pr.buf = none
    · exact parse_refused fresh (.inl (by decide))
    · rw [parsedRequestParse, if_pos fresh]
      rfl
  have result := same 0 []
  rw [empty, empty] at result
  exact ⟨word, by simpa using result⟩

theorem firstToken {line : Bytes} (string : 0 ∉ line) (spoken : ¬ Blank line) :
    ∃ start saveptr block, strtokR (line ++ [0]) 0 (· == 32) = .ok (some start, saveptr, block) := by
  rcases exists_token (· == 32) line with
    blank | ⟨gap, token, after, rfl, blank, nonempty, solid, stops⟩
  · exact absurd blank spoken
  · have points := points_terminated string
    cases after with
    | nil =>
        rw [List.append_nil] at points ⊢
        exact ⟨_, _, _, points.strtokR_last blank nonempty solid⟩
    | cons c after =>
        obtain ⟨block, cut, -⟩ := points.strtokR_cut blank nonempty solid (stops c rfl)
        exact ⟨_, _, block, cut⟩

theorem failed_cases (failed : parsedRequestParse errno (parsedRequestCreate word) buf = .ok (-1, pr)) :
    (Early buf ∨ Blank (lineOf (cstr buf))) ∧ pr = parsedRequestCreate word ∨
      ¬ Early buf ∧ ¬ Blank (lineOf (cstr buf)) ∧ pr.method ≠ none := by
  have fresh : (parsedRequestCreate word).buf = none := rfl
  by_cases early : Early buf
  · rw [parse_refused fresh (early_iff.mp early)] at failed
    exact .inl ⟨.inl early, by simpa using failed.symm⟩
  · obtain ⟨short, long, ended⟩ : ¬ buf.length < MIN_REQ_LEN ∧ ¬ buf.length > MAX_REQ_LEN ∧
        crlf ++ crlf <:+: cstr buf := by
      simpa only [early_iff, not_or, not_not] using early
    obtain ⟨first, lines, body, request⟩ := exists_request ended
    have isFirst : lineOf (cstr buf) = first := by
      rw [request.visible, lineOf_append request.first.1]
    rw [request.parse_eq fresh (not_or.mpr ⟨short, long⟩)] at failed
    rw [isFirst]
    by_cases blank : Blank first
    · have none := (points_terminated request.first.2).strtokR_none blank
      rw [parseLines, parseRequestLine, none] at failed
      simp only [ok_bind] at failed
      exact .inl ⟨.inr blank, (congrArg Prod.snd (Except.ok.inj failed)).symm⟩
    · obtain ⟨start, saveptr, block, token⟩ := firstToken request.first.2 blank
      have method := parseLines_method token _ failed
      refine .inr ⟨early, blank, ?_⟩
      rw [show pr.method = some start from method]
      exact Option.some_ne_none start

/-- A failed parse leaves a clean object exactly when it is refused before it copies the request
line, but for `buflen` when there is no word in that line. -/
theorem failedParse_clean_iff
    (failed : parsedRequestParse errno (parsedRequestCreate word) buf = .ok (-1, pr)) :
    (CleanWithBuflen pr (buflenAfter (parsedRequestCreate word) 0 buf) ↔ Early buf) ∧
      (Clean pr ↔ Early buf ∨ Blank (lineOf (cstr buf))) := by
  rcases failed_cases failed with ⟨unspoken, rfl⟩ | ⟨late, spoken, method⟩
  · refine ⟨?_, iff_of_true (clean_create word) unspoken⟩
    constructor
    · rintro ⟨word', same⟩
      by_contra late
      have unset := (same 0 []).2
      have given : buflenAfter (parsedRequestCreate word) 0 buf = (lineOf (cstr buf)).length + 1 :=
        if_pos ⟨rfl, late⟩
      have empty (parse : ParsedRequest) (buflen : Nat) : buflenAfter parse buflen [] = buflen :=
        if_neg fun both => both.2 (.inl (by decide))
      rw [empty, empty, given] at unset
      cases unset
    · intro early
      have unset : buflenAfter (parsedRequestCreate word) 0 buf = 0 :=
        if_neg fun both => both.2 early
      rw [unset]
      exact ⟨word, fun _ _ => ⟨rfl, rfl⟩⟩
  · have unclean : ¬ Clean pr := by
      intro clean
      obtain ⟨word', rfl⟩ := clean.eq_create
      exact method rfl
    constructor
    · refine iff_of_false ?_ late
      rintro ⟨word', same⟩
      exact unclean ⟨word', fun errno request => (same errno request).1⟩
    · exact iff_of_false unclean (not_or.mpr ⟨late, spoken⟩)

theorem failedParse_clean_iff_unended :
    parsedRequestParse 0 (parsedRequestCreate 0) (ascii "GET / HTTP/1.1\r\n") =
        .ok (-1, parsedRequestCreate 0) ∧
      (Clean (parsedRequestCreate 0) ↔ Early (ascii "GET / HTTP/1.1\r\n") ∨
        Blank (lineOf (cstr (ascii "GET / HTTP/1.1\r\n")))) := by
  have failed : parsedRequestParse 0 (parsedRequestCreate 0) (ascii "GET / HTTP/1.1\r\n") =
      .ok (-1, parsedRequestCreate 0) := by
    decide +kernel
  exact ⟨failed, (failedParse_clean_iff failed).2⟩

theorem failedParse_unclean :
    ¬ ∀ (errno : Int) (word : Nat) (buf : Bytes) (pr : ParsedRequest),
      parsedRequestParse errno (parsedRequestCreate word) buf = .ok (-1, pr) → Clean pr := by
  intro all
  have kept : (parsedRequestParse 0 (parsedRequestCreate 0)
      (ascii "GET / HTTP/1.1\r\nA: b\r\n\r\n")).map (fun result => (result.1, result.2.headers)) =
        .ok (-1, [⟨some (ascii "A"), ascii "b"⟩]) := by
    decide +kernel
  cases parsed : parsedRequestParse 0 (parsedRequestCreate 0)
      (ascii "GET / HTTP/1.1\r\nA: b\r\n\r\n") with
  | error fault =>
      rw [parsed] at kept
      cases kept
  | ok result =>
      obtain ⟨ret, pr⟩ := result
      rw [parsed] at kept
      obtain ⟨rfl, headers⟩ := Prod.mk.inj (Except.ok.inj kept)
      obtain ⟨word, rfl⟩ := (all 0 0 _ pr parsed).eq_create
      cases headers

end ProxyServer.ProxyParse
