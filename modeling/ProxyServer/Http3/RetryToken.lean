import ProxyServer.Lib.Block

namespace ProxyServer.Http3
open Lib.Block

/-- What is in `token` and in `token_len` afterwards. -/
def mintToken (dcid : Bytes) (dcidLen : Nat) (addr : Bytes) (addrLen : Nat) (token : Bytes) :
    Checked (Bytes × Nat) := do
  let token ← writeAt token 0 (ascii "quiche")
  let token ← writeAt token 6 (← copyAt addr 0 addrLen)
  let token ← writeAt token (6 + addrLen) (← copyAt dcid 0 dcidLen)
  return (token, toSize (6 + addrLen + dcidLen))

/-- The differences of lengths that are computed, and what is in `odcid` and in `odcid_len` if the
token is valid. -/
structure Validation where
  differences : List (Nat × Nat)
  odcid : Option (Bytes × Nat)

def validateToken (token : Bytes) (tokenLen : Nat) (addr : Bytes) (addrLen : Nat) (odcid : Bytes)
    (odcidLen : Nat) : Checked Validation := do
  if tokenLen < 6 then
    return ⟨[], none⟩
  if (← copyAt token 0 6) ≠ ascii "quiche" then
    return ⟨[], none⟩
  let afterName := toSize (tokenLen - 6)
  if afterName < addrLen then
    return ⟨[(tokenLen, 6)], none⟩
  if (← copyAt token 6 addrLen) ≠ (← copyAt addr 0 addrLen) then
    return ⟨[(tokenLen, 6)], none⟩
  let afterAddr := toSize (afterName - addrLen)
  if odcidLen < afterAddr then
    return ⟨[(tokenLen, 6), (afterName, addrLen)], none⟩
  let odcid ← writeAt odcid 0 (← copyAt token (6 + addrLen) afterAddr)
  return ⟨[(tokenLen, 6), (afterName, addrLen)], some (odcid, afterAddr)⟩

theorem exists_cut {n : Nat} {bytes : Bytes} (enough : n ≤ bytes.length) :
    ∃ front rest, bytes = front ++ rest ∧ front.length = n :=
  ⟨bytes.take n, bytes.drop n, (List.take_append_drop n bytes).symm, by simpa using enough⟩

variable {a odcid : Bytes} {c : Nat}

theorem copyAt_name (rest : Bytes) : copyAt (ascii "quiche" ++ rest) 0 6 = .ok (ascii "quiche") :=
  copyAt_front _ _

theorem length_name (rest : Bytes) : (ascii "quiche" ++ rest).length = 6 + rest.length :=
  List.length_append

theorem toSize_rest {n m : Nat} (sized : n + m < 2 ^ 64) :
    toSize (((n + m : Nat) : Int) - n) = m := by
  unfold toSize
  omega

section Named

variable {rest d : Bytes} (tokenRest addrRest : Bytes)

theorem validateToken_short (sized : 6 + rest.length < 2 ^ 64) (short : rest.length < a.length) :
    validateToken (ascii "quiche" ++ (rest ++ tokenRest)) (6 + rest.length) (a ++ addrRest)
      a.length odcid c = .ok ⟨[(6 + rest.length, 6)], none⟩ := by
  have afterName : toSize (((6 + rest.length : Nat) : Int) - 6) = rest.length := toSize_rest sized
  rw [validateToken, if_neg (by omega), copyAt_name, ok_bind, if_neg (by simp)]
  simp only [afterName, if_pos short]
  rfl

theorem copyAt_addr (addr rest : Bytes) :
    copyAt (ascii "quiche" ++ (addr ++ rest)) 6 addr.length = .ok addr :=
  copyAt_inside (ascii "quiche") addr rest

theorem validateToken_other {addr : Bytes} (sized : 6 + (addr ++ d).length < 2 ^ 64)
    (sameLength : addr.length = a.length) (other : addr ≠ a) :
    validateToken (ascii "quiche" ++ (addr ++ (d ++ tokenRest))) (6 + (addr ++ d).length)
      (a ++ addrRest) a.length odcid c = .ok ⟨[(6 + (addr ++ d).length, 6)], none⟩ := by
  have afterName : toSize (((6 + (addr ++ d).length : Nat) : Int) - 6) = (addr ++ d).length :=
    toSize_rest sized
  have long : ¬ (addr ++ d).length < a.length := by
    rw [List.length_append]
    omega
  have readAddr := copyAt_addr addr (d ++ tokenRest)
  rw [sameLength] at readAddr
  rw [validateToken, if_neg (by omega), copyAt_name, ok_bind, if_neg (by simp)]
  simp only [afterName, if_neg long, readAddr, copyAt_front, ok_bind, ne_eq, other, if_true,
    not_false_eq_true]
  rfl

theorem validateToken_same (sized : 6 + (a ++ d).length < 2 ^ 64) (room : c ≤ odcid.length) :
    validateToken (ascii "quiche" ++ (a ++ (d ++ tokenRest))) (6 + (a ++ d).length)
      (a ++ addrRest) a.length odcid c =
        .ok ⟨[(6 + (a ++ d).length, 6), ((a ++ d).length, a.length)],
          if c < d.length then none else some (d ++ odcid.drop d.length, d.length)⟩ := by
  have afterName : toSize (((6 + (a ++ d).length : Nat) : Int) - 6) = (a ++ d).length :=
    toSize_rest sized
  have afterAddr : toSize (((a ++ d).length : Int) - a.length) = d.length := by
    rw [List.length_append] at sized ⊢
    exact toSize_rest (by omega)
  have long : ¬ (a ++ d).length < a.length := by
    rw [List.length_append]
    omega
  rw [validateToken, if_neg (by omega), copyAt_name, ok_bind, if_neg (by simp)]
  simp only [afterName, afterAddr, if_neg long, copyAt_addr, copyAt_front, ok_bind, ne_eq,
    not_true_eq_false, if_false]
  by_cases tight : c < d.length
  · simp only [if_pos tight]
    rfl
  · have readId := copyAt_inside (ascii "quiche" ++ a) d tokenRest
    rw [length_name, List.append_assoc] at readId
    have written : writeAt odcid 0 d = .ok (d ++ odcid.drop d.length) := by
      rw [writeAt_ok (by omega), List.take_zero, List.nil_append, Nat.zero_add]
    simp only [if_neg tight, readId, written, ok_bind]
    rfl

end Named

theorem validateToken_named {rest : Bytes} (tokenRest addrRest : Bytes)
    (sized : 6 + rest.length < 2 ^ 64) (room : c ≤ odcid.length) :
    ∃ v, validateToken (ascii "quiche" ++ (rest ++ tokenRest)) (6 + rest.length)
        (a ++ addrRest) a.length odcid c = .ok v ∧
      (∀ p ∈ v.differences, p.2 ≤ p.1) ∧
      ∀ out, v.odcid = some out ↔
        ∃ d, rest = a ++ d ∧ d.length ≤ c ∧ out = (d ++ odcid.drop d.length, d.length) := by
  by_cases short : rest.length < a.length
  · refine ⟨_, validateToken_short tokenRest addrRest sized short, by simp, fun out => ?_⟩
    refine iff_of_false (by simp) ?_
    rintro ⟨d, rfl, -⟩
    rw [List.length_append] at short
    omega
  obtain ⟨addr, d, rfl, sameLength⟩ := exists_cut (Nat.le_of_not_lt short)
  rw [List.append_assoc]
  by_cases same : addr = a
  · subst same
    refine ⟨_, validateToken_same tokenRest addrRest sized room, by simp, fun out => ?_⟩
    simp only [List.append_cancel_left_eq]
    constructor
    · intro isOut
      split_ifs at isOut with tight
      exact ⟨d, rfl, Nat.le_of_not_lt tight, (Option.some.inj isOut).symm⟩
    · rintro ⟨d', rfl, fits, rfl⟩
      exact if_neg (Nat.not_lt.mpr fits)
  · refine ⟨_, validateToken_other tokenRest addrRest sized sameLength same, by simp, fun out => ?_⟩
    refine iff_of_false (by simp) ?_
    rintro ⟨d', isRest, -⟩
    exact same (List.append_inj_left isRest sameLength)

theorem validateToken_spec {t : Bytes} (tokenRest addrRest : Bytes) (sized : t.length < 2 ^ 64)
    (room : c ≤ odcid.length) :
    ∃ v, validateToken (t ++ tokenRest) t.length (a ++ addrRest) a.length odcid c = .ok v ∧
      (∀ p ∈ v.differences, p.2 ≤ p.1) ∧
      ∀ out, v.odcid = some out ↔ ∃ d, t = ascii "quiche" ++ a ++ d ∧ d.length ≤ c ∧
        out = (d ++ odcid.drop d.length, d.length) := by
  simp only [List.append_assoc]
  by_cases short : t.length < 6
  · refine ⟨⟨[], none⟩, ?_, by simp, fun out => ?_⟩
    · rw [validateToken, if_pos short]
      rfl
    · refine iff_of_false (by simp) ?_
      rintro ⟨d, rfl, -⟩
      have six : (ascii "quiche").length = 6 := rfl
      rw [List.length_append, six] at short
      omega
  obtain ⟨name, rest, rfl, six⟩ := exists_cut (Nat.le_of_not_lt short)
  by_cases named : name = ascii "quiche"
  · subst named
    rw [length_name] at sized ⊢
    simp only [List.append_assoc, List.append_cancel_left_eq]
    exact validateToken_named tokenRest addrRest sized room
  · have readName : copyAt (name ++ rest ++ tokenRest) 0 6 = .ok name := by
      rw [List.append_assoc, ← six]
      exact copyAt_front _ _
    refine ⟨⟨[], none⟩, ?_, by simp, fun out => ?_⟩
    · rw [validateToken, if_neg short, readName, ok_bind, if_pos named]
      rfl
    · refine iff_of_false (by simp) ?_
      rintro ⟨d, same, -⟩
      exact named (List.append_inj_left same six)

theorem mintToken_spec {dcid token : Bytes} (dcidRest addrRest : Bytes)
    (enough : (ascii "quiche" ++ a ++ dcid).length ≤ token.length)
    (sized : (ascii "quiche" ++ a ++ dcid).length < 2 ^ 64) :
    ∃ tokenRest, mintToken (dcid ++ dcidRest) dcid.length (a ++ addrRest) a.length token =
      .ok (ascii "quiche" ++ a ++ dcid ++ tokenRest, (ascii "quiche" ++ a ++ dcid).length) := by
  have six : (ascii "quiche").length = 6 := rfl
  simp only [List.length_append, six] at enough sized ⊢
  obtain ⟨name, rest, rfl, nameLength⟩ := exists_cut (show 6 ≤ token.length by omega)
  rw [List.length_append, nameLength] at enough
  obtain ⟨addr, rest, rfl, addrLength⟩ := exists_cut (show a.length ≤ rest.length by omega)
  rw [List.length_append, addrLength] at enough
  obtain ⟨id, rest, rfl, idLength⟩ := exists_cut (show dcid.length ≤ rest.length by omega)
  have overwrite : ∀ before old after new : Bytes, old.length = new.length →
      writeAt (before ++ (old ++ after)) before.length new = .ok (before ++ (new ++ after)) := by
    intro before old after new same
    rw [writeAt_ok (by simp [same]), List.take_left, List.append_assoc, ← same]
    congr 3
    rw [← List.append_assoc, ← List.length_append, List.drop_left]
  refine ⟨rest, ?_⟩
  rw [mintToken, copyAt_front, copyAt_front]
  have first := overwrite [] name (addr ++ (id ++ rest)) (ascii "quiche") nameLength
  have second := overwrite (ascii "quiche") addr (id ++ rest) a addrLength
  have third := overwrite (ascii "quiche" ++ a) id rest dcid idLength
  rw [List.length_append, six, List.append_assoc (ascii "quiche") a] at third
  rw [List.nil_append, List.length_nil] at first
  rw [six] at second
  rw [first, ok_bind, ok_bind, List.nil_append, second, ok_bind, ok_bind, third, ok_bind, toSize]
  have same : ((6 + a.length + dcid.length : Nat) % 2 ^ 64 : Int).toNat =
      6 + a.length + dcid.length := by
    omega
  simp only [List.append_assoc]
  exact congrArg (fun n => Except.ok (_, n)) same

/-- A token gives the id that follows the name and the address, if there is room for it. -/
theorem retryToken_exact (a addrRest odcid : Bytes) {c : Nat} (room : c ≤ odcid.length) :
    (∀ t tokenRest : Bytes, t.length < 2 ^ 64 →
      ∃ v, validateToken (t ++ tokenRest) t.length (a ++ addrRest) a.length odcid c = .ok v ∧
        (∀ p ∈ v.differences, p.2 ≤ p.1) ∧
        ∀ out, v.odcid = some out ↔ ∃ d, t = ascii "quiche" ++ a ++ d ∧ d.length ≤ c ∧
          out = (d ++ odcid.drop d.length, d.length)) ∧
    ∀ dcid dcidRest token : Bytes, dcid.length ≤ c →
      (ascii "quiche" ++ a ++ dcid).length ≤ token.length → token.length < 2 ^ 64 →
      ∃ minted n, mintToken (dcid ++ dcidRest) dcid.length (a ++ addrRest) a.length token =
          .ok (minted, n) ∧
        (∃ v, validateToken minted n (a ++ addrRest) a.length odcid c = .ok v ∧
          v.odcid = some (dcid ++ odcid.drop dcid.length, dcid.length)) ∧
        ∀ other otherRest : Bytes, other.length = a.length → other ≠ a →
          ∃ v, validateToken minted n (other ++ otherRest) other.length odcid c = .ok v ∧
            v.odcid = none := by
  refine ⟨fun t tokenRest sized => validateToken_spec tokenRest addrRest sized room, ?_⟩
  intro dcid dcidRest token fits enough sized
  have short := Nat.lt_of_le_of_lt enough sized
  obtain ⟨tokenRest, minted⟩ := mintToken_spec dcidRest addrRest enough short
  refine ⟨_, _, minted, ?_, fun other otherRest sameLength different => ?_⟩
  · obtain ⟨v, isV, -, given⟩ := validateToken_spec tokenRest addrRest short room
    exact ⟨v, isV, (given _).mpr ⟨dcid, rfl, fits, rfl⟩⟩
  · obtain ⟨v, isV, -, given⟩ := validateToken_spec tokenRest otherRest short room
    refine ⟨v, isV, ?_⟩
    cases isOut : v.odcid with
    | none => rfl
    | some out =>
        obtain ⟨d, same, -⟩ := (given out).mp isOut
        rw [List.append_assoc, List.append_assoc, List.append_cancel_left_eq] at same
        exact absurd (List.append_inj_left same sameLength.symm).symm different

theorem retryToken_exact_twenty :
    (∃ v, validateToken (ascii "quicheaddrdcid") 14 (ascii "addr") 4 (List.replicate 20 0) 20 =
        .ok v ∧ v.odcid = some (ascii "dcid" ++ List.replicate 16 0, 4)) ∧
      ∃ minted n, mintToken (ascii "dcid") 4 (ascii "addr") 4 (List.replicate 20 0) =
          .ok (minted, n) ∧
        ∃ v, validateToken minted n (ascii "else") 4 (List.replicate 20 0) 20 = .ok v ∧
          v.odcid = none := by
  obtain ⟨accepts, mints⟩ := retryToken_exact (ascii "addr") [] (List.replicate 20 0) (c := 20)
    (by decide)
  obtain ⟨v, isV, -, given⟩ := accepts (ascii "quicheaddrdcid") [] (by decide)
  obtain ⟨minted, n, isMinted, -, others⟩ := mints (ascii "dcid") [] (List.replicate 20 0)
    (by decide) (by decide) (by decide)
  exact ⟨⟨v, isV, (given _).mpr ⟨ascii "dcid", by decide, by decide, by decide⟩⟩, minted, n,
    isMinted, others (ascii "else") [] (by decide) (by decide)⟩

end ProxyServer.Http3
