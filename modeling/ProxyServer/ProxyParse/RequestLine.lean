import ProxyServer.ProxyParse.Headers

namespace ProxyServer.ProxyParse
open Lib.Block Lib.Lines

def ParsedRequest.release (parse : ParsedRequest) : ParsedRequest := { parse with buf := none }

/-- The pointer is to the address. `version` is never null, so its check never ends the parse. -/
def parseRequestLine (parse : ParsedRequest) (line : Bytes) :
    Checked (ParsedRequest × Option Nat) := do
  let (method, saveptr, buf) ← strtokR (line ++ [0]) 0 (· == 32)
  let parse := { parse with buf := some buf, method }
  match method with
  | none => return (parse.release, none)
  | some start =>
      let name ← stringAt buf start
      if name ≠ ascii "GET" ∧ name ≠ ascii "CONNECT" then
        return (parse.release, none)
      let (fullAddr, _, buf) ← strtokR buf saveptr (· == 32)
      match fullAddr with
      | none => return (parse.release, none)
      | some fullAddr =>
          let address ← stringAt buf fullAddr
          let version := fullAddr + address.length + 1
          let parse := { parse with buf := some buf, version := some version }
          let text ← stringAt buf version
          if ¬ (ascii "HTTP/").isPrefixOf text then
            return (parse.release, none)
          return (parse, some fullAddr)

def requestWords (line : Bytes) : Option (Bytes × Bytes × Bytes) :=
  let first := line.dropWhile (· == 32)
  let second := (first.dropWhile (· != 32)).dropWhile (· == 32)
  if second = [] then none
  else some (first.takeWhile (· != 32), second.takeWhile (· != 32), second.dropWhile (· != 32))

def Blank (s : Bytes) : Prop := ∀ c ∈ s, (c == 32) = true

def Word (s : Bytes) : Prop := s ≠ [] ∧ ∀ c ∈ s, ¬ (c == 32) = true

def AfterWord (s : Bytes) : Prop := ∀ c ∈ s.head?, (c == 32) = true

theorem Blank.afterWord {s : Bytes} (blank : Blank s) : AfterWord s :=
  fun c first => blank c (List.mem_of_head? first)

theorem AfterWord.cases {s : Bytes} (after : AfterWord s) : s = [] ∨ ∃ rest, s = 32 :: rest := by
  cases s with
  | nil => exact .inl rfl
  | cons c rest =>
      have space : c = 32 := by simpa [AfterWord] using after
      exact .inr ⟨rest, by rw [space]⟩

theorem Word.cut {s : Bytes} (word : Word s) {after : Bytes} (stops : AfterWord after) :
    (s ++ after).takeWhile (· != 32) = s ∧ (s ++ after).dropWhile (· != 32) = after :=
  takeWhile_gap (· != 32) (by simpa using word.2) after (by simpa [AfterWord] using stops)

theorem Blank.cut {gap : Bytes} (blank : Blank gap) {s : Bytes} (word : Word s) (more : Bytes) :
    (gap ++ (s ++ more)).dropWhile (· == 32) = s ++ more := by
  refine (takeWhile_gap (· == 32) blank (s ++ more) ?_).2
  obtain ⟨c, s, rfl⟩ := List.exists_cons_of_ne_nil word.1
  intro d first
  exact word.2 d (by simp_all)

theorem Blank.dropWhile_eq_nil {gap : Bytes} (blank : Blank gap) :
    gap.dropWhile (· == 32) = [] := List.dropWhile_eq_nil_iff.mpr blank

inductive RequestShape (line : Bytes) : Prop where
  | blank (blank : Blank line) (none : requestWords line = none)
  | method (gap method gap' : Bytes) (split : line = gap ++ (method ++ gap')) (blank : Blank gap)
      (word : Word method) (blank' : Blank gap') (none : requestWords line = none)
  | address (gap method gap' address after : Bytes)
      (split : line = gap ++ (method ++ 32 :: (gap' ++ (address ++ after)))) (blank : Blank gap)
      (word : Word method) (blank' : Blank gap') (word' : Word address) (stops : AfterWord after)
      (some : requestWords line = some (method, address, after))

theorem requestShape (line : Bytes) : RequestShape line := by
  rcases exists_token (· == 32) line with
    blank | ⟨gap, method, rest, rfl, blank, nonempty, solid, stops⟩
  · exact .blank blank (by simp [requestWords, Blank.dropWhile_eq_nil blank])
  · have word : Word method := ⟨nonempty, solid⟩
    have first := Blank.cut blank word rest
    obtain ⟨name, left⟩ := word.cut stops
    rcases exists_token (· == 32) rest with
      blank' | ⟨gap', address, after, rfl, blank', nonempty', solid', stops'⟩
    · exact .method gap method rest rfl blank word blank'
        (by simp [requestWords, first, left, Blank.dropWhile_eq_nil blank'])
    · have word' : Word address := ⟨nonempty', solid'⟩
      have second := Blank.cut blank' word' after
      obtain ⟨target, last⟩ := word'.cut stops'
      -- The word before is ended by the first of these spaces.
      cases gap' with
      | nil =>
          obtain ⟨c, address, rfl⟩ := List.exists_cons_of_ne_nil nonempty'
          exact absurd (stops c (by simp)) (solid' c (by simp))
      | cons space gap' =>
          have isSpace : space = 32 := by simpa using blank' space (by simp)
          subst isSpace
          refine .address gap method gap' address after (by simp) blank word
            (fun c inside => blank' c (List.mem_cons_of_mem _ inside)) word' stops' ?_
          simp only [requestWords, first, name, left, second, target, last]
          rw [if_neg (by simp [nonempty'])]

theorem exists_words {line method address after : Bytes}
    (words : requestWords line = some (method, address, after)) :
    ∃ gap gap', line = gap ++ (method ++ 32 :: (gap' ++ (address ++ after))) ∧ Blank gap ∧
      Word method ∧ Blank gap' ∧ Word address ∧ AfterWord after := by
  cases requestShape line with
  | blank _ none | method _ _ _ _ _ _ _ none => simp [none] at words
  | address gap method gap' address after split blank word blank' word' stops some =>
      obtain ⟨rfl, rfl, rfl⟩ : method = _ ∧ address = _ ∧ after = _ := by
        simpa using some.symm.trans words
      exact ⟨gap, gap', split, blank, word, blank', word', stops⟩

theorem requestWords_eq {method address : Bytes} (word : Word method) (word' : Word address)
    (version : Bytes) :
    requestWords (method ++ 32 :: (address ++ 32 :: version)) =
      some (method, address, 32 :: version) := by
  have stops (s : Bytes) : AfterWord (32 :: s) := by simp [AfterWord]
  have none : Blank [] := by simp [Blank]
  have space : Blank [32] := by simp [Blank]
  have first := none.cut word (32 :: (address ++ 32 :: version))
  have second := space.cut word' (32 :: version)
  rw [List.nil_append] at first
  rw [List.singleton_append] at second
  simp only [requestWords, first, (word.cut (stops _)).1, (word.cut (stops _)).2, second,
    (word'.cut (stops _)).1, (word'.cut (stops _)).2]
  rw [if_neg (by simp)]

def HttpVersion (after : Bytes) : Prop := ascii "HTTP/" <+: after.tail

section RequestLine

variable {parse : ParsedRequest} {line method address after : Bytes}

theorem firstWord {gap rest : Bytes} (string : 0 ∉ gap ++ (method ++ 32 :: rest))
    (blank : Blank gap) (word : Word method) :
    ∃ start save buf,
      strtokR (gap ++ (method ++ 32 :: rest) ++ [0]) 0 (· == 32) = .ok (some start, save, buf) ∧
      buf.length = save + rest.length + 1 ∧ start + method.length < save ∧
      Points buf start method ∧ Points buf save rest := by
  obtain ⟨buf, cut, sameLength, pointsMethod, pointsRest, -⟩ :=
    (points_terminated string).strtokR_cut blank word.1 word.2 (by decide)
  refine ⟨_, _, buf, cut, ?_, Nat.lt_succ_self _, pointsMethod, pointsRest⟩
  rw [sameLength]
  simp
  omega

theorem parseRequestLine_refused (string : 0 ∉ line)
    (refused : ∀ method address after, requestWords line = some (method, address, after) →
      method ≠ ascii "GET" ∧ method ≠ ascii "CONNECT") :
    ∃ method, ∀ parse, parseRequestLine parse line = .ok ({ parse with method }.release, none) := by
  cases requestShape line with
  | blank blank _ =>
      simp only [parseRequestLine, (points_terminated string).strtokR_none blank, ok_bind]
      exact ⟨_, fun _ => rfl⟩
  | method gap method gap' split blank word blank' _ =>
      subst split
      rcases (Blank.afterWord blank').cases with rfl | ⟨rest, rfl⟩
      · have points := points_terminated string
        rw [List.append_nil] at points
        have pointsMethod := points.suffix
        have pointsEnd : Points (gap ++ method ++ [0]) (0 + gap.length + method.length) [] :=
          Points.suffix (by rwa [List.append_nil])
        have blank' : Blank [] := by simp [Blank]
        simp only [parseRequestLine, List.append_nil, points.strtokR_last blank word.1 word.2,
          ok_bind, pointsMethod.stringAt, pointsEnd.strtokR_none blank']
        split <;> exact ⟨_, fun _ => rfl⟩
      · obtain ⟨start, save, buf, cut, -, -, pointsMethod, pointsRest⟩ :=
          firstWord string blank word
        have blank : Blank rest := fun c inside => blank' c (List.mem_cons_of_mem _ inside)
        simp only [parseRequestLine, cut, ok_bind, pointsMethod.stringAt,
          pointsRest.strtokR_none blank]
        split <;> exact ⟨_, fun _ => rfl⟩
  | address gap method gap' address after split blank word blank' word' stops some =>
      subst split
      obtain ⟨start, save, buf, cut, -, -, pointsMethod, -⟩ := firstWord string blank word
      simp only [parseRequestLine, cut, ok_bind, pointsMethod.stringAt,
        if_pos (refused _ _ _ some)]
      exact ⟨_, fun _ => rfl⟩

theorem parseRequestLine_fault (string : 0 ∉ line)
    (words : requestWords line = some (method, address, []))
    (known : method = ascii "GET" ∨ method = ascii "CONNECT") :
    parseRequestLine parse line = .error .outOfBounds := by
  obtain ⟨gap, gap', rfl, blank, word, blank', word', -⟩ := exists_words words
  obtain ⟨start, save, buf, cut, length, -, pointsMethod, pointsRest⟩ :=
    firstWord string blank word
  rw [List.append_nil] at pointsRest
  have pointsAddress := pointsRest.suffix
  -- The version would start one byte after the block.
  have past : buf.length ≤ save + gap'.length + address.length + 1 := by
    rw [length]
    simp
    omega
  simp only [parseRequestLine, cut, ok_bind, pointsMethod.stringAt,
    if_neg (not_and_or.mpr (known.imp not_not.mpr not_not.mpr)),
    pointsRest.strtokR_last blank' word'.1 word'.2, pointsAddress.stringAt,
    stringAt_past past, error_bind]

instance (after : Bytes) : Decidable (HttpVersion after) :=
  decidable_of_iff ((ascii "HTTP/").isPrefixOf after.tail = true) List.isPrefixOf_iff_prefix

theorem parseRequestLine_some (string : 0 ∉ line)
    (words : requestWords line = some (method, address, after)) (spaced : after ≠ [])
    (known : method = ascii "GET" ∨ method = ascii "CONNECT") :
    ∃ buf start fullAddr version,
      Points buf start method ∧ Points buf fullAddr address ∧ Points buf version after.tail ∧
      start + method.length < fullAddr ∧ ∀ parse, parseRequestLine parse line = .ok (
        let parse := { parse with
          buf := some buf, method := some start, version := some version }
        if HttpVersion after then (parse, some fullAddr) else (parse.release, none)) := by
  obtain ⟨gap, gap', rfl, blank, word, blank', word', stops⟩ := exists_words words
  obtain ⟨version, rfl⟩ := stops.cases.resolve_left spaced
  obtain ⟨start, save, buf, cut, -, early, pointsMethod, pointsRest⟩ :=
    firstWord string blank word
  obtain ⟨buf', cut', -, pointsAddress, pointsVersion, frame⟩ :=
    pointsRest.strtokR_cut blank' word'.1 word'.2 (by decide)
  have pointsMethod' := frame start method pointsMethod early
  refine ⟨buf', start, _, _, pointsMethod', pointsAddress, pointsVersion, by omega, fun parse => ?_⟩
  simp only [parseRequestLine, cut, ok_bind, pointsMethod.stringAt,
    if_neg (not_and_or.mpr (known.imp not_not.mpr not_not.mpr)), cut',
    pointsAddress.stringAt, pointsVersion.stringAt]
  by_cases http : HttpVersion (32 :: version)
  · have isPrefix : (ascii "HTTP/").isPrefixOf version = true :=
      List.isPrefixOf_iff_prefix.mpr http
    simp only [isPrefix, not_true_eq_false, if_false, if_pos http]
    rfl
  · have notPrefix : ¬ (ascii "HTTP/").isPrefixOf version = true :=
      fun starts => http (List.isPrefixOf_iff_prefix.mp starts)
    simp only [notPrefix, if_neg http]
    rfl

end RequestLine

end ProxyServer.ProxyParse
