import ProxyServer.ProxyParse.RequestLine

namespace ProxyServer.ProxyParse
open Lib.Block Lib.Lines

/-! ## `CONNECT` -/

def tunnelTo (parse : ParsedRequest) (buf : Bytes) (host : Host) (port : Bytes) :
    ParsedRequest × Bool :=
  ({ parse with
      buf := some buf, host := some host, port := .owned port, path := some (ascii "/"),
      protocol := none }, true)

def parseConnect (parse : ParsedRequest) (buf : Bytes) (fullAddr : Nat) :
    Checked (ParsedRequest × Bool) := do
  if (← byteAt buf fullAddr) = 91 then
    match ← strchr buf (fullAddr + 1) 93 with
    | none => return (parse.release, false)
    | some endBracket =>
        let buf ← storeAt buf endBracket 0
        let host ← stringAt buf (fullAddr + 1)
        if (← byteAt buf (endBracket + 1)) = 58 then
          let port ← stringAt buf (endBracket + 2)
          return tunnelTo parse buf (.owned host) port
        return tunnelTo parse buf (.owned host) (ascii "443")
  else
    let (host, saveptr, buf) ← strtokR buf fullAddr (· == 58)
    let (port, _, buf) ← strtokR buf saveptr fun _ => false
    match host, port with
    | none, _ => return ({ parse with host := none }.release, false)
    | some host, none => return tunnelTo parse buf (.inBuf host) (ascii "443")
    | some host, some port =>
        let port ← stringAt buf port
        if port.length > 0 then
          return tunnelTo parse buf (.inBuf host) port
        return tunnelTo parse buf (.inBuf host) (ascii "443")

/-- What a step over the address leaves: it goes on when `accepted`, with a host or with the block
and the method as they were. -/
structure TargetRead (parse : ParsedRequest) (accepted : Prop)
    (result : ParsedRequest × Bool) : Prop where
  decides : result.2 = true ↔ accepted
  headers : result.1.headers = parse.headers
  headerslen : result.1.headerslen = parse.headerslen
  keeps : result.2 = true → result.1.host = none →
    result.1.buf = parse.buf ∧ result.1.method = parse.method

def ConnectAccepted (address : Bytes) : Prop :=
  if address.head? = some 91 then 93 ∈ address.tail else ∃ c ∈ address, c ≠ 58

def connectHost (address : Bytes) : Bytes :=
  if address.head? = some 91 then address.tail.takeWhile (· != 93)
  else (address.dropWhile (· == 58)).takeWhile (· != 58)

def connectPort (address : Bytes) : Bytes :=
  if address.head? = some 91 then
    let rest := (address.dropWhile (· != 93)).tail
    if rest.head? = some 58 then rest.tail else ascii "443"
  else
    let port := ((address.dropWhile (· == 58)).dropWhile (· != 58)).tail
    if port = [] then ascii "443" else port

def HostText (buf : Bytes) : Host → Bytes → Prop
  | .inBuf i, name => Points buf i name
  | .owned s, name => s = name

section Connect

variable {parse : ParsedRequest} {buf address : Bytes} {fullAddr : Nat}

theorem parseConnect_bracket {rest : Bytes} (points : Points buf fullAddr (91 :: rest))
    (bracket : 93 ∈ rest) :
    ∃ cut host, HostText cut host (connectHost (91 :: rest)) ∧
      (∀ j u, Points buf j u → j + u.length < fullAddr → Points cut j u) ∧
      ∀ parse, parseConnect parse buf fullAddr =
        .ok (tunnelTo parse cut host (connectPort (91 :: rest))) := by
  have pointsHost := points.drop (n := 1) (by simp)
  rw [List.drop_one, List.tail_cons] at pointsHost
  obtain ⟨host, after, rfl, absent⟩ := List.eq_append_cons_of_mem bracket
  obtain ⟨cut, stored, -, pointsHost', pointsAfter, frame⟩ := pointsHost.storeAt
  have found := pointsHost.strchr_found absent
  have inner : ∀ c ∈ host, (c != 93) = true := by
    intro c inside
    simp only [bne_iff_ne, ne_eq]
    exact fun same => absent (same ▸ inside)
  have isHost : connectHost (91 :: (host ++ 93 :: after)) = host := by
    simpa [connectHost] using (takeWhile_gap (· != 93) inner (93 :: after) (by simp)).1
  have isRest : ((91 :: (host ++ 93 :: after)).dropWhile (· != 93)).tail = after := by
    rw [List.dropWhile_cons_of_pos (by decide),
      (takeWhile_gap (· != 93) inner (93 :: after) (by simp)).2, List.tail_cons]
  rw [isHost, connectPort, isRest, List.head?_cons, if_pos rfl]
  refine ⟨cut, .owned host, rfl, fun j u there early => frame j u there (by omega), fun parse => ?_⟩
  cases after with
  | nil =>
      simp only [parseConnect, points.byteAt_cons, ok_bind, if_true, found, stored,
        pointsHost'.stringAt, pointsAfter.byteAt_nil]
      rfl
  | cons c after =>
      by_cases colon : c = 58
      · have pointsPort : Points cut (fullAddr + 1 + host.length + 2) after :=
          pointsAfter.drop (n := 1) (by simp)
        simp only [parseConnect, points.byteAt_cons, ok_bind, if_true, found, stored,
          pointsHost'.stringAt, pointsAfter.byteAt_cons, colon, pointsPort.stringAt,
          List.head?_cons, List.tail_cons]
        rfl
      · simp only [parseConnect, points.byteAt_cons, ok_bind, if_true, found, stored,
          pointsHost'.stringAt, pointsAfter.byteAt_cons, if_neg colon, List.head?_cons,
          Option.some.injEq]
        rfl

theorem parseConnect_plain (points : Points buf fullAddr address)
    (plain : address.head? ≠ some 91) (named : ∃ c ∈ address, c ≠ 58) :
    ∃ cut host, HostText cut host (connectHost address) ∧
      (∀ j u, Points buf j u → j + u.length < fullAddr → Points cut j u) ∧
      ∀ parse, parseConnect parse buf fullAddr =
        .ok (tunnelTo parse cut host (connectPort address)) := by
  obtain ⟨first, notBracket, isFirst⟩ := points.byteAt_ne plain (by decide)
  rcases exists_token (· == 58) address with
    colons | ⟨gap, host, rest, rfl, colons, nonempty, solid, stops⟩
  · obtain ⟨c, inside, notColon⟩ := named
    exact absurd (by simpa using colons c inside) notColon
  · have started : (gap ++ (host ++ rest)).dropWhile (· == 58) = host ++ rest := by
      refine (takeWhile_gap (· == 58) colons (host ++ rest) fun d isFirst => ?_).2
      obtain ⟨c, host, rfl⟩ := List.exists_cons_of_ne_nil nonempty
      exact solid d (by simp_all)
    obtain ⟨isHost, isRest⟩ :=
      takeWhile_gap (· != 58) (by simpa using solid : ∀ c ∈ host, _) rest (by simpa using stops)
    rw [connectHost, connectPort, if_neg plain, if_neg plain, started, isHost, isRest]
    obtain ⟨start, save, cut, token, pointsHost, pointsPort, frame⟩ : ∃ start save cut,
        strtokR buf fullAddr (· == 58) = .ok (some start, save, cut) ∧ Points cut start host ∧
          Points cut save rest.tail ∧
          ∀ j u, Points buf j u → j + u.length < fullAddr → Points cut j u := by
      cases rest with
      | nil =>
          rw [List.append_nil] at points
          have pointsEnd : Points buf (fullAddr + gap.length + host.length) [] :=
            Points.suffix (by simpa using points.suffix)
          exact ⟨_, _, _, points.strtokR_last colons nonempty solid, points.suffix, pointsEnd,
            fun _ _ there _ => there⟩
      | cons c port =>
          obtain ⟨cut, token, -, pointsHost, pointsPort, frame⟩ :=
            points.strtokR_cut colons nonempty solid (stops c rfl)
          exact ⟨_, _, _, token, pointsHost, pointsPort, frame⟩
    obtain ⟨stop, left⟩ := pointsPort.strtokR_all
    refine ⟨cut, .inBuf start, pointsHost, frame, fun parse => ?_⟩
    by_cases empty : rest.tail = []
    · simp only [parseConnect, isFirst, ok_bind, if_neg notBracket, token, left, if_pos empty]
      rfl
    · simp only [parseConnect, isFirst, ok_bind, if_neg notBracket, token, left, if_neg empty,
        pointsPort.stringAt, if_pos (List.length_pos_of_ne_nil empty)]
      rfl

theorem parseConnect_accepted (points : Points buf fullAddr address)
    (accepted : ConnectAccepted address) :
    ∃ cut host, HostText cut host (connectHost address) ∧
      (∀ j u, Points buf j u → j + u.length < fullAddr → Points cut j u) ∧
      ∀ parse, parseConnect parse buf fullAddr =
        .ok (tunnelTo parse cut host (connectPort address)) := by
  by_cases bracket : address.head? = some 91
  · obtain ⟨rest, rfl⟩ := List.head?_eq_some_iff.mp bracket
    exact parseConnect_bracket points (by simpa [ConnectAccepted] using accepted)
  · exact parseConnect_plain points bracket (by simpa [ConnectAccepted, bracket] using accepted)

theorem parseConnect_refused (points : Points buf fullAddr address)
    (refused : ¬ ConnectAccepted address) :
    ∃ host, parseConnect parse buf fullAddr = .ok ({ parse with host }.release, false) := by
  by_cases bracket : address.head? = some 91
  · obtain ⟨rest, rfl⟩ := List.head?_eq_some_iff.mp bracket
    have open' : 93 ∉ rest := by simpa [ConnectAccepted] using refused
    have pointsHost := points.drop (n := 1) (by simp)
    rw [List.drop_one, List.tail_cons] at pointsHost
    refine ⟨parse.host, ?_⟩
    simp only [parseConnect, points.byteAt_cons, ok_bind, if_true,
      pointsHost.strchr_absent open']
    rfl
  · have colons : ∀ c ∈ address, (c == 58) = true := by
      simpa [ConnectAccepted, bracket] using refused
    obtain ⟨first, notBracket, isFirst⟩ := points.byteAt_ne bracket (by decide)
    have pointsEnd : Points buf (fullAddr + address.length) [] :=
      Points.suffix (by rwa [List.append_nil])
    obtain ⟨stop, ended⟩ := pointsEnd.strtokR_all
    refine ⟨none, ?_⟩
    simp only [parseConnect, isFirst, ok_bind, if_neg notBracket, points.strtokR_none colons, ended,
      if_true]
    rfl

theorem parseConnect_read (points : Points buf fullAddr address) :
    ∃ result, parseConnect parse buf fullAddr = .ok result ∧
      TargetRead parse (ConnectAccepted address) result := by
  by_cases accepted : ConnectAccepted address
  · obtain ⟨cut, host, -, -, parsed⟩ := parseConnect_accepted points accepted
    exact ⟨_, parsed parse, by simp [tunnelTo, accepted], rfl, rfl, by simp [tunnelTo]⟩
  · obtain ⟨host, parsed⟩ := @parseConnect_refused parse _ _ _ points accepted
    exact ⟨_, parsed, by simp [accepted], rfl, rfl, by simp⟩

end Connect

/-! ## `GET` -/

def EINVAL : Int := 22

/-- The authority of an absolute target, in the block at `host`. The port that has no number in it
is refused only when `errno` says so. -/
def parseAuthority (errno : Int) (parse : ParsedRequest) (host : Bytes) :
    Checked (ParsedRequest × Bool) := do
  if (← byteAt host 0) = 91 then
    match ← strchr host 0 93 with
    | none => return ({ parse with host := some (.owned (← stringAt host 0)) }, true)
    | some endBracket =>
        let (port, host) ← match ← strchr host endBracket 58 with
          | none => pure (parse.port, host)
          | some colon => do
              let host ← storeAt host colon 0
              let port ← stringAt host (colon + 1)
              pure (Port.owned port, host)
        let addrLen := endBracket - 1
        let host ← writeAt host 0 (← copyAt host 1 addrLen)
        let host ← storeAt host addrLen 0
        return ({ parse with host := some (.owned (← stringAt host 0)), port }, true)
  else
    match ← strchr host 0 58 with
    | none => return ({ parse with host := some (.owned (← stringAt host 0)) }, true)
    | some colon =>
        let host ← storeAt host colon 0
        let port ← stringAt host (colon + 1)
        let parse :=
          { parse with host := some (.owned (← stringAt host 0)), port := .owned port }
        if port.length > 0 ∧ toInt (strtol port) = 0 ∧ strtolErrno errno port = EINVAL then
          return ({ parse.release with path := none }, false)
        return (parse, true)

def parseAbsolute (errno : Int) (parse : ParsedRequest) (buf : Bytes) (fullAddr protoEnd : Nat) :
    Checked (ParsedRequest × Bool) := do
  let protocol ← copyAt buf fullAddr (protoEnd - fullAddr)
  let parse := { parse with protocol := some protocol }
  let rem := protoEnd + 3
  match ← strchr buf rem 47 with
  | none => return (parse.release, false)
  | some pathStart =>
      let hostLen := pathStart - rem
      if hostLen = 0 then
        return (parse.release, false)
      let host ← copyAt buf rem hostLen
      let path ← stringAt buf pathStart
      parseAuthority errno { parse with path := some path } (host ++ [0])

def parseRelative (parse : ParsedRequest) (buf : Bytes) (fullAddr : Nat) :
    Checked (ParsedRequest × Bool) := do
  let first ← byteAt buf fullAddr
  let address ← stringAt buf fullAddr
  return ({ parse with
      protocol := some (ascii "http"), host := none, port := .null,
      path := some (if first = 47 then address else ascii "/" ++ address) }, true)

def parseGet (errno : Int) (parse : ParsedRequest) (buf : Bytes) (fullAddr : Nat) :
    Checked (ParsedRequest × Bool) := do
  let address ← stringAt buf fullAddr
  let layered := (ascii "/http://").isPrefixOf address || (ascii "/https://").isPrefixOf address
  let fullAddr := if layered then fullAddr + 1 else fullAddr
  match ← strstr buf fullAddr (ascii "://") with
  | some protoEnd => parseAbsolute errno parse buf fullAddr protoEnd
  | none => parseRelative parse buf fullAddr

/-- The port of an authority without brackets is one that `strtol` finds no number in, while
`errno` says that the conversion failed. -/
def BadPort (errno : Int) (authority : Bytes) : Prop :=
  authority.head? ≠ some 91 ∧
    let port := authority.drop (authority.idxOf 58 + 1)
    port.length > 0 ∧ toInt (strtol port) = 0 ∧ strtolErrno errno port = EINVAL

def unlayered (address : Bytes) : Bytes :=
  if (ascii "/http://").isPrefixOf address || (ascii "/https://").isPrefixOf address then
    address.tail
  else address

def GetAccepted (errno : Int) (address : Bytes) : Prop :=
  ∀ rest, memmem (unlayered address) (ascii "://") = some rest →
    47 ∈ rest.drop 3 ∧ (rest.drop 3).head? ≠ some 47 ∧
      ¬ BadPort errno ((rest.drop 3).takeWhile (· != 47))

instance (errno : Int) (authority : Bytes) : Decidable (BadPort errno authority) :=
  inferInstanceAs (Decidable (authority.head? ≠ some 91 ∧
    (authority.drop (authority.idxOf 58 + 1)).length > 0 ∧
      toInt (strtol (authority.drop (authority.idxOf 58 + 1))) = 0 ∧
        strtolErrno errno (authority.drop (authority.idxOf 58 + 1)) = EINVAL))

/-! ## What a `GET` target gives -/

def afterColon (s : Bytes) : Option Bytes :=
  if 58 ∈ s then some (s.drop (s.idxOf 58 + 1)) else none

def hostOf (authority : Bytes) : Bytes :=
  if authority.head? = some 91 then
    if 93 ∈ authority then authority.tail.takeWhile (· != 93) else authority
  else authority.takeWhile (· != 58)

def portOf (authority : Bytes) : Option Bytes :=
  if authority.head? = some 91 then
    if 93 ∈ authority then afterColon (authority.dropWhile (· != 93)) else none
  else afterColon authority

def authorityRead (errno : Int) (parse : ParsedRequest) (authority : Bytes) :
    ParsedRequest × Bool :=
  let parse := { parse with
    host := some (.owned (hostOf authority)), port := (portOf authority).elim parse.port .owned }
  if BadPort errno authority then ({ parse.release with path := none }, false) else (parse, true)

def absoluteRead (errno : Int) (parse : ParsedRequest) (protocol target : Bytes) :
    ParsedRequest × Bool :=
  let parse := { parse with protocol := some protocol }
  if 47 ∉ target ∨ target.head? = some 47 then (parse.release, false)
  else authorityRead errno { parse with path := some (target.dropWhile (· != 47)) }
    (target.takeWhile (· != 47))

def slashed (address : Bytes) : Bytes :=
  if address.head? = some 47 then address else ascii "/" ++ address

def relativeRead (parse : ParsedRequest) (address : Bytes) : ParsedRequest × Bool :=
  ({ parse with
      protocol := some (ascii "http"), host := none, port := .null,
      path := some (slashed address) }, true)

def getRead (errno : Int) (parse : ParsedRequest) (address : Bytes) : ParsedRequest × Bool :=
  match memmem (unlayered address) (ascii "://") with
  | none => relativeRead parse (unlayered address)
  | some rest =>
      absoluteRead errno parse
        ((unlayered address).take ((unlayered address).length - rest.length)) (rest.drop 3)

section Get

variable {errno : Int} {parse : ParsedRequest}

theorem afterColon_append {name : Bytes} (absent : 58 ∉ name) (port : Bytes) :
    afterColon (name ++ 58 :: port) = some port := by
  rw [afterColon, if_pos (by simp), List.idxOf_append_of_notMem absent, List.idxOf_cons_self,
    Nat.add_zero]
  simp

theorem shift_ok {host name : Bytes} (fits : name.length < host.length) (string : 0 ∉ name) :
    ∃ moved cut, writeAt host 0 name = .ok moved ∧ storeAt moved name.length 0 = .ok cut ∧
      Points cut 0 name := by
  have written : writeAt host 0 name = .ok (name ++ host.drop name.length) := by
    rw [writeAt, if_pos (by omega)]
    simp
  obtain ⟨c, rest, split⟩ : ∃ c rest, host.drop name.length = c :: rest :=
    List.exists_cons_of_ne_nil (mt List.drop_eq_nil_iff.mp (by omega))
  rw [split] at written
  refine ⟨_, name ++ 0 :: rest, written, ?_, [], rest, by simp, rfl, string⟩
  rw [storeAt, if_pos (by simp)]
  simp

theorem parseAuthority_bracket {block authority : Bytes} (points : Points block 0 authority)
    (bracket : authority.head? = some 91) :
    parseAuthority errno parse block = .ok (authorityRead errno parse authority) := by
  have first := points.byteAt_head bracket
  have unported : ¬ BadPort errno authority := fun bad => bad.1 bracket
  rw [authorityRead, if_neg unported, hostOf, portOf, if_pos bracket, if_pos bracket]
  by_cases closed : 93 ∈ authority
  · obtain ⟨inner, after, rfl, absent⟩ := List.eq_append_cons_of_mem closed
    obtain ⟨name, rfl⟩ : ∃ name, inner = 91 :: name := by
      cases inner with
      | nil => simp at bracket
      | cons c name => exact ⟨name, by simpa using bracket⟩
    have absentName : 93 ∉ name := fun inside => absent (List.mem_cons_of_mem _ inside)
    have isHost : (91 :: name ++ 93 :: after).tail.takeWhile (· != 93) = name :=
      (cut_at absentName after).1
    have isEnd : (91 :: name ++ 93 :: after).dropWhile (· != 93) = 93 :: after :=
      (cut_at absent after).2
    have found := points.strchr_found absent
    have inside := points.lt_length
    simp only [List.length_append, List.length_cons] at inside
    have pointsEnd := points.suffix
    have shorter : 0 + (91 :: name).length - 1 = name.length := by simp
    -- What is left of the block after the port has been cut off still has the name in it.
    have shifted {cut gap : Bytes} (points : Points cut 0 (91 :: name ++ gap)) :
        ∃ moved ended, copyAt cut 1 name.length = .ok name ∧ writeAt cut 0 name = .ok moved ∧
          storeAt moved name.length 0 = .ok ended ∧ stringAt ended 0 = .ok name := by
      have pointsName : Points cut 1 (name ++ gap) := points.drop (n := 1) (by simp)
      have copied := pointsName.copyAt (n := name.length) (by simp)
      rw [List.take_left] at copied
      have string : 0 ∉ name := fun zero => pointsName.notMem (List.mem_append_left _ zero)
      have fits := points.lt_length
      obtain ⟨moved, ended, written, stored, pointsShifted⟩ :=
        @shift_ok cut name (by simp at fits; omega) string
      exact ⟨moved, ended, copied, written, stored, pointsShifted.stringAt⟩
    rw [if_pos closed, if_pos closed, isHost, isEnd]
    by_cases colon : 58 ∈ 93 :: after
    · obtain ⟨gap, port, split, absent'⟩ := List.eq_append_cons_of_mem colon
      rw [split, ← List.append_assoc] at points
      rw [split] at pointsEnd
      obtain ⟨cut, stored, -, pointsCut, pointsPort, -⟩ := points.storeAt
      rw [List.length_append, ← Nat.add_assoc] at stored pointsPort
      obtain ⟨moved, ended, copied, written, terminated, named⟩ := shifted pointsCut
      simp only [parseAuthority, first, ok_bind, if_true, found, pointsEnd.strchr_found absent',
        stored, pointsPort.stringAt, pure_bind, shorter, copied, written, terminated, named, split,
        afterColon_append absent']
      rfl
    · have none : afterColon (93 :: after) = none := if_neg colon
      obtain ⟨moved, ended, copied, written, terminated, named⟩ := shifted points
      simp only [parseAuthority, first, ok_bind, if_true, found, pointsEnd.strchr_absent colon,
        pure_bind, shorter, copied, written, terminated, named, none]
      rfl
  · simp only [parseAuthority, first, ok_bind, if_true, points.strchr_absent closed,
      points.stringAt, if_neg closed]
    rfl

theorem parseAuthority_plain {block authority : Bytes} (points : Points block 0 authority)
    (plain : authority.head? ≠ some 91) :
    parseAuthority errno parse block = .ok (authorityRead errno parse authority) := by
  obtain ⟨first, notBracket, isFirst⟩ := points.byteAt_ne plain (by decide)
  rw [authorityRead, hostOf, portOf, if_neg plain, if_neg plain]
  by_cases colon : 58 ∈ authority
  · obtain ⟨name, port, rfl, absent⟩ := List.eq_append_cons_of_mem colon
    obtain ⟨cut, stored, -, pointsName, pointsPort, -⟩ := points.storeAt
    have isPort : (name ++ 58 :: port).drop ((name ++ 58 :: port).idxOf 58 + 1) = port := by
      rw [List.idxOf_append_of_notMem absent, List.idxOf_cons_self, Nat.add_zero]
      simp
    have refused : BadPort errno (name ++ 58 :: port) ↔
        port.length > 0 ∧ toInt (strtol port) = 0 ∧ strtolErrno errno port = EINVAL := by
      rw [BadPort, isPort]
      exact and_iff_right plain
    simp only [parseAuthority, isFirst, ok_bind, if_neg notBracket, points.strchr_found absent,
      stored, pointsName.stringAt, pointsPort.stringAt, refused, (cut_at absent port).1,
      afterColon_append absent]
    by_cases bad : port.length > 0 ∧ toInt (strtol port) = 0 ∧ strtolErrno errno port = EINVAL
    · simp only [if_pos bad]
      rfl
    · simp only [if_neg bad]
      rfl
  · have unported : ¬ BadPort errno authority := by
      simp [BadPort, List.idxOf_eq_length colon]
    have none : afterColon authority = none := if_neg colon
    simp only [parseAuthority, isFirst, ok_bind, if_neg notBracket, points.strchr_absent colon,
      points.stringAt, if_neg unported, takeWhile_absent colon, none]
    rfl

theorem parseAuthority_eq {block authority : Bytes} (points : Points block 0 authority) :
    parseAuthority errno parse block = .ok (authorityRead errno parse authority) := by
  by_cases bracket : authority.head? = some 91
  · exact parseAuthority_bracket points bracket
  · exact parseAuthority_plain points bracket

section Address

variable {buf address : Bytes} {fullAddr : Nat}

theorem parseAbsolute_eq {protocol target : Bytes}
    (points : Points buf fullAddr (protocol ++ (ascii "://" ++ target))) :
    parseAbsolute errno parse buf fullAddr (fullAddr + protocol.length) =
      .ok (absoluteRead errno parse protocol target) := by
  have copied := points.copyAt (n := protocol.length) (by simp)
  have pointsTarget : Points buf (fullAddr + protocol.length + 3) target := points.suffix.suffix
  by_cases pathed : 47 ∈ target
  · obtain ⟨authority, path, rfl, absent⟩ := List.eq_append_cons_of_mem pathed
    have found := pointsTarget.strchr_found absent
    obtain ⟨isAuthority, isPath⟩ := cut_at absent path
    rw [absoluteRead, isAuthority, isPath]
    by_cases empty : authority = []
    · subst empty
      rw [if_pos (.inr rfl)]
      simp only [parseAbsolute, Nat.add_sub_cancel_left, copied, ok_bind, List.take_left, found,
        List.length_nil, if_true]
      rfl
    · have named : (authority ++ 47 :: path).head? ≠ some 47 := by
        obtain ⟨c, authority, rfl⟩ := List.exists_cons_of_ne_nil empty
        intro first
        simp_all
      have copied' := pointsTarget.copyAt (n := authority.length) (by simp)
      have string : 0 ∉ authority := fun inside =>
        pointsTarget.notMem (List.mem_append_left _ inside)
      rw [if_neg (not_or.mpr ⟨not_not.mpr pathed, named⟩)]
      simp only [parseAbsolute, Nat.add_sub_cancel_left, copied, ok_bind, List.take_left, found,
        if_neg (mt List.eq_nil_of_length_eq_zero empty), copied', pointsTarget.suffix.stringAt]
      exact parseAuthority_eq (points_terminated string)
  · rw [absoluteRead, if_pos (.inl pathed)]
    simp only [parseAbsolute, Nat.add_sub_cancel_left, copied, ok_bind, List.take_left,
      pointsTarget.strchr_absent pathed]
    rfl

theorem parseRelative_eq (points : Points buf fullAddr address) :
    parseRelative parse buf fullAddr = .ok (relativeRead parse address) := by
  obtain ⟨first, isFirst, same⟩ : ∃ first, byteAt buf fullAddr = .ok first ∧
      (first = 47 ↔ address.head? = some 47) := by
    cases address with
    | nil => exact ⟨0, points.byteAt_nil, by simp⟩
    | cons c rest => exact ⟨c, points.byteAt_cons, by simp⟩
  simp only [parseRelative, isFirst, points.stringAt, ok_bind, relativeRead, slashed, same]
  rfl

theorem points_unlayered (points : Points buf fullAddr address) :
    Points buf
      (if (ascii "/http://").isPrefixOf address || (ascii "/https://").isPrefixOf address then
        fullAddr + 1 else fullAddr) (unlayered address) := by
  rw [unlayered]
  split
  · rename_i layered
    have slash : address ≠ [] := by
      rintro rfl
      exact absurd layered (by decide)
    rw [← List.drop_one]
    exact points.drop (List.length_pos_of_ne_nil slash)
  · exact points

theorem parseGet_eq (points : Points buf fullAddr address) :
    parseGet errno parse buf fullAddr = .ok (getRead errno parse address) := by
  have pointsTarget := points_unlayered points
  rw [getRead]
  cases found : memmem (unlayered address) (ascii "://") with
  | none =>
      simp only [parseGet, points.stringAt, ok_bind, pointsTarget.strstr, found, Option.map_none,
        parseRelative_eq pointsTarget]
  | some rest =>
      obtain ⟨protocol, split⟩ := memmem_suffix found
      obtain ⟨target, starts⟩ := memmem_starts found
      have place : (unlayered address).length - rest.length = protocol.length := by
        rw [← split, List.length_append, Nat.add_sub_cancel]
      have searched := pointsTarget.strstr (ascii "://")
      rw [found, Option.map_some, place] at searched
      have isProtocol : (unlayered address).take protocol.length = protocol := by
        rw [← split, List.take_left]
      have isTarget : rest.drop 3 = target := by
        rw [← starts]
        rfl
      rw [← split, ← starts] at pointsTarget
      simp only [place, isProtocol, isTarget]
      simp only [parseGet, points.stringAt, ok_bind, searched, parseAbsolute_eq pointsTarget]

end Address

theorem getRead_read (errno : Int) (parse : ParsedRequest) (address : Bytes) :
    TargetRead parse (GetAccepted errno address) (getRead errno parse address) := by
  rw [getRead]
  cases found : memmem (unlayered address) (ascii "://") with
  | none =>
      exact ⟨by simp [relativeRead, GetAccepted, found], rfl, rfl, fun _ _ => ⟨rfl, rfl⟩⟩
  | some rest =>
      have accepted : GetAccepted errno address ↔
          ¬ (47 ∉ rest.drop 3 ∨ (rest.drop 3).head? = some 47) ∧
            ¬ BadPort errno ((rest.drop 3).takeWhile (· != 47)) := by
        simp only [GetAccepted, found, Option.some.injEq, forall_eq', not_or, not_not, ne_eq,
          and_assoc]
      simp only [absoluteRead, authorityRead, accepted]
      by_cases refused : 47 ∉ rest.drop 3 ∨ (rest.drop 3).head? = some 47
      · rw [if_pos refused]
        exact ⟨iff_of_false (by simp) (fun both => both.1 refused), rfl, rfl, by simp⟩
      · rw [if_neg refused]
        by_cases bad : BadPort errno ((rest.drop 3).takeWhile (· != 47))
        · rw [if_pos bad]
          exact ⟨by simp [bad], rfl, rfl, by simp⟩
        · rw [if_neg bad]
          exact ⟨iff_of_true rfl ⟨refused, bad⟩, rfl, rfl, by simp⟩

end Get

end ProxyServer.ProxyParse
