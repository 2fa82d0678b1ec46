import ProxyServer.ProxyParse.Accepted

namespace ProxyServer.ProxyParse
open Lib Lib.Block Lib.Lines

def NamesAuthority (address : Bytes) (pr : ParsedRequest) (authority : Bytes) : Prop :=
  match memmem (unlayered address) (ascii "://") with
  | some rest => authority = (rest.drop 3).takeWhile (· != 47)
  | none => (ascii "Host", authority) ∈ pr.fields

structure Determined (buf : Bytes) : Prop where
  same : ∀ errno word errno' word', ∃ ret pr pr',
    parsedRequestParse errno (parsedRequestCreate word) buf = .ok (ret, pr) ∧
    parsedRequestParse errno' (parsedRequestCreate word') buf = .ok (ret, pr') ∧
    pr.view = pr'.view
  portless : ∀ errno word pr first lines body address after authority,
    IsRequest buf first lines body → requestWords first = some (ascii "GET", address, after) →
    parsedRequestParse errno (parsedRequestCreate word) buf = .ok (0, pr) →
    NamesAuthority address pr authority → portOf authority = none → pr.port = .null

/-- The target gives the port a value, and one that no `errno` spoils. -/
def PortAssigned (method address : Bytes) : Prop :=
  if method = ascii "CONNECT" then ConnectAccepted address
  else ∀ rest, memmem (unlayered address) (ascii "://") = some rest →
    47 ∈ rest.drop 3 ∧ (rest.drop 3).head? ≠ some 47 ∧
      portOf ((rest.drop 3).takeWhile (· != 47)) ≠ none ∧
      ¬ BadPort EINVAL ((rest.drop 3).takeWhile (· != 47))

def AssignsPort (buf : Bytes) : Prop :=
  Sized buf ∧ crlf ++ crlf <:+: cstr buf ∧
    ∀ first lines body, IsRequest buf first lines body →
      ∃ method address after, requestWords first = some (method, address, after) ∧
        (method = ascii "GET" ∨ method = ascii "CONNECT") ∧ HttpVersion after ∧
        LinesRead lines body ∧ PortAssigned method address

section Target

variable {errno : Int} {address authority : Bytes}

theorem BadPort.einval (bad : BadPort errno authority) : BadPort EINVAL authority := by
  obtain ⟨plain, long, zero, failed⟩ := bad
  refine ⟨plain, long, zero, ?_⟩
  rw [strtolErrno] at failed ⊢
  split at failed
  · rename_i inRange
    rw [if_pos inRange]
  · exact absurd failed (by decide)

theorem not_badPort_zero : ¬ BadPort 0 authority := by
  rintro ⟨-, -, -, failed⟩
  rw [strtolErrno] at failed
  split at failed <;> exact absurd failed (by decide)

theorem getRead_assigned (assigned : PortAssigned (ascii "GET") address) (parse : ParsedRequest)
    (errno : Int) :
    getRead errno parse address = getRead 0 { parse with port := .null } address ∧
      (getRead errno parse address).2 = true := by
  have assigned := (if_neg (by decide)).mp assigned
  rw [getRead, getRead]
  cases found : memmem (unlayered address) (ascii "://") with
  | none => exact ⟨rfl, rfl⟩
  | some rest =>
      obtain ⟨pathed, named, ported, good⟩ := assigned rest found
      have goesOn : ¬ (47 ∉ rest.drop 3 ∨ (rest.drop 3).head? = some 47) :=
        not_or.mpr ⟨not_not.mpr pathed, named⟩
      obtain ⟨port, isPort⟩ := Option.ne_none_iff_exists'.mp ported
      simp only [absoluteRead, authorityRead, if_neg goesOn, isPort, Option.elim_some,
        if_neg (mt BadPort.einval good), and_self]

end Target

section Parse

variable {buf first body : Bytes} {lines : List Bytes}

theorem target_assigned {method address after block : Bytes} {start fullAddr version : Nat}
    (cut : Cut first method address after block start fullAddr version)
    (known : method = ascii "GET" ∨ method = ascii "CONNECT")
    (assigned : PortAssigned method address) :
    ∃ parse', ∀ errno word,
      parseTarget errno (withLine (parsedRequestCreate word) block start version) fullAddr =
        .ok (parse', true) := by
  rcases known with rfl | rfl
  · refine ⟨(getRead 0 { withLine (parsedRequestCreate 0) block start version with
      port := .null } address).1, fun errno word => ?_⟩
    obtain ⟨same, goesOn⟩ := getRead_assigned assigned
      (withLine (parsedRequestCreate word) block start version) errno
    rw [cut.parseTarget_eq, if_neg (by decide), ← Prod.mk.eta
      (p := getRead errno (withLine (parsedRequestCreate word) block start version) address),
      goesOn, same]
    rfl
  · obtain ⟨block', host, -, -, parsed⟩ :=
      parseConnect_accepted cut.pointsAddress ((if_pos rfl).mp assigned)
    refine ⟨(tunnelTo (withLine (parsedRequestCreate 0) block start version) block' host
      (connectPort address)).1, fun errno word => ?_⟩
    rw [cut.parseTarget_eq, if_pos rfl, parsed]
    rfl

theorem Determined.of_assignsPort (assigns : AssignsPort buf) : Determined buf := by
  obtain ⟨sized, ended, reads⟩ := assigns
  constructor
  · obtain ⟨first, lines, body, request⟩ := exists_request ended
    obtain ⟨method, address, after, words, known, http, linesRead, assigned⟩ :=
      reads first lines body request
    obtain ⟨block, start, fullAddr, version, cut⟩ :=
      exists_cut request.first.2 words http.spaced known
    obtain ⟨parse', targeted⟩ := target_assigned cut known assigned
    have same (errno : Int) (word : Nat) :
        parsedRequestParse errno (parsedRequestCreate word) buf =
          parsedRequestParse 0 (parsedRequestCreate 0) buf := by
      rw [request.parse_eq rfl sized, request.parse_eq rfl sized]
      simp only [parseLines, cut.parsed, if_pos http, ok_bind, targeted]
    obtain ⟨⟨ret, pr⟩, done⟩ :
        ∃ result, parsedRequestParse 0 (parsedRequestCreate 0) buf = .ok result := by
      obtain ⟨ret, pr, intact, -, -, -, done⟩ :=
        request.parse_accepted sized cut http rfl (.create 0) (targeted 0 0) linesRead
      rw [done]
      split
      · exact parseHost_ok intact.distinct
      · exact ⟨_, rfl⟩
    exact fun errno word errno' word' =>
      ⟨ret, pr, pr, (same errno word).trans done, (same errno' word').trans done, rfl⟩
  · intro errno word pr first lines body address after authority request words parsed names portless
    obtain ⟨method, address', after', words', known, http, linesRead, assigned⟩ :=
      reads first lines body request
    obtain ⟨rfl, rfl, rfl⟩ : ascii "GET" = method ∧ address = address' ∧ after = after' := by
      simpa using words.symm.trans words'
    let p : Parts := ⟨first, lines, body, ascii "GET", address, after⟩
    have of : p.Of buf := ⟨request, sized, words, known, http, linesRead⟩
    obtain ⟨-, -, result⟩ := of.get rfl parsed
    rw [NamesAuthority] at names
    cases result with
    | absolute protocol authority' path split found nonempty absent good _ _ _ _ =>
        have ported := ((if_neg (by decide)).mp assigned _ found).2.2.1
        rw [found] at names
        exact absurd (by rw [← names]; exact portless) ported
    | relative value absent member _ _ isPort _ =>
        rw [absent] at names
        obtain ⟨p', -, -, fields, -⟩ := exists_parts parsed
        have distinct : (keys pr.fields).Nodup := fields ▸ nodup_latest _
        obtain rfl : value = authority :=
          congrArg Prod.snd (List.inj_on_of_nodup_map distinct member names rfl)
        rw [isPort, portless]
        rfl

theorem not_determined_of_kept
    (kept : ∀ word, ∃ ret pr, parsedRequestParse 0 (parsedRequestCreate word) buf = .ok (ret, pr) ∧
      pr.port = .uninitialized word) : ¬ Determined buf := by
  intro determined
  obtain ⟨ret, pr, pr', parsed, parsed', view⟩ := determined.same 0 0 0 1
  obtain ⟨ret₀, pr₀, parsed₀, port₀⟩ := kept 0
  obtain ⟨ret₁, pr₁, parsed₁, port₁⟩ := kept 1
  obtain ⟨-, rfl⟩ : ret = ret₀ ∧ pr = pr₀ := by simpa using parsed.symm.trans parsed₀
  obtain ⟨-, rfl⟩ : ret = ret₁ ∧ pr' = pr₁ := by simpa using parsed'.symm.trans parsed₁
  have same : pr.port = pr'.port := congrArg View.port view
  rw [port₀, port₁] at same
  simp at same

theorem Determined.ok (determined : Determined buf) (errno : Int) (word : Nat) :
    ∃ result, parsedRequestParse errno (parsedRequestCreate word) buf = .ok result := by
  obtain ⟨ret, pr, -, parsed, -⟩ := determined.same errno word errno word
  exact ⟨_, parsed⟩

theorem Determined.portAssigned (determined : Determined buf) (sized : Sized buf)
    (request : IsRequest buf first lines body) {method address after : Bytes}
    (words : requestWords first = some (method, address, after))
    (known : method = ascii "GET" ∨ method = ascii "CONNECT") (http : HttpVersion after) :
    LinesRead lines body ∧ PortAssigned method address := by
  obtain ⟨block, start, fullAddr, version, cut⟩ := exists_cut request.first.2 words http.spaced known
  have readsLines (accepted : Accepted 0 method address after) : LinesRead lines body := by
    by_contra unread
    have unread' : ¬ Reads 0 first lines body := fun reads =>
      unread ((reads method address after words known).2 accepted)
    obtain ⟨fault, -, failed⟩ := request.parseLines_fault (Intact.create 0) unread'
    obtain ⟨result, parsed⟩ := determined.ok 0 0
    rw [request.parse_eq rfl sized, failed] at parsed
    simp at parsed
  have refused (target : ∀ word, ∃ parse', parseTarget 0
      (withLine (parsedRequestCreate word) block start version) fullAddr = .ok (parse', false) ∧
        parse'.port = .uninitialized word) : False := by
    refine not_determined_of_kept (fun word => ?_) determined
    obtain ⟨parse', targeted, port⟩ := target word
    exact ⟨-1, parse', request.parse_refused sized cut http rfl targeted, port⟩
  rcases known with rfl | rfl
  · have isGet (errno : Int) (word : Nat) :=
      @Cut.parseTarget_eq errno (parsedRequestCreate word) _ _ _ _ _ _ _ _ cut
    have target : ∀ rest, memmem (unlayered address) (ascii "://") = some rest →
        47 ∈ rest.drop 3 ∧ (rest.drop 3).head? ≠ some 47 := by
      intro rest found
      by_contra unnamed
      have ends : 47 ∉ rest.drop 3 ∨ (rest.drop 3).head? = some 47 := by tauto
      refine refused fun word => ?_
      have targeted := isGet 0 word
      simp only [if_neg (by decide : ¬ ascii "GET" = ascii "CONNECT"), getRead, found, absoluteRead,
        if_pos ends] at targeted
      exact ⟨_, targeted, rfl⟩
    have accepted : Accepted 0 (ascii "GET") address after :=
      ⟨http, (if_neg (by decide)).mpr fun rest found =>
        ⟨(target rest found).1, (target rest found).2, not_badPort_zero⟩⟩
    refine ⟨readsLines accepted, (if_neg (by decide)).mpr fun rest found => ?_⟩
    obtain ⟨pathed, named⟩ := target rest found
    have goesOn : ¬ (47 ∉ rest.drop 3 ∨ (rest.drop 3).head? = some 47) := by tauto
    -- The run with another `errno` or another word, up to the header lines.
    have read (errno : Int) (word : Nat) := isGet errno word
    simp only [if_neg (by decide : ¬ ascii "GET" = ascii "CONNECT"), getRead, found, absoluteRead,
      if_neg goesOn, authorityRead] at read
    have finish (word : Nat) : ∃ ret pr,
        parsedRequestParse 0 (parsedRequestCreate word) buf = .ok (ret, pr) ∧
          pr.path ≠ none ∧
          pr.port = (portOf ((rest.drop 3).takeWhile (· != 47))).elim (.uninitialized word)
            .owned := by
      have targeted := read 0 word
      rw [if_neg not_badPort_zero] at targeted
      obtain ⟨ret, pr, -, same, -, -, done⟩ :=
        request.parse_accepted sized cut http rfl (.create word) targeted (readsLines accepted)
      rw [if_neg (by simp)] at done
      exact ⟨ret, pr, done, by rw [same]; simp, by rw [same]; rfl⟩
    refine ⟨pathed, named, fun portless => ?_, fun bad => ?_⟩
    · refine not_determined_of_kept (fun word => ?_) determined
      obtain ⟨ret, pr, parsed, -, port⟩ := finish word
      exact ⟨ret, pr, parsed, by rw [port, portless]; rfl⟩
    · obtain ⟨ret, pr, parsed, path, -⟩ := finish 0
      have targeted := read EINVAL 0
      rw [if_pos bad] at targeted
      have failed := request.parse_refused sized cut http rfl targeted
      obtain ⟨ret', pr', pr'', parsed', parsed'', view⟩ := determined.same EINVAL 0 0 0
      obtain ⟨rfl, rfl⟩ := Prod.mk.inj (Except.ok.inj (parsed'.symm.trans failed))
      obtain ⟨rfl, rfl⟩ := Prod.mk.inj (Except.ok.inj (parsed''.symm.trans parsed))
      exact path (congrArg View.path view).symm
  · have connected : ConnectAccepted address := by
      by_contra unnamed
      refine refused fun word => ?_
      obtain ⟨host, parsed⟩ := @parseConnect_refused
        (withLine (parsedRequestCreate word) block start version) _ _ _ cut.pointsAddress unnamed
      exact ⟨_, by rw [cut.parseTarget_eq, if_pos rfl, parsed], rfl⟩
    exact ⟨readsLines ⟨http, (if_pos rfl).mpr connected⟩, (if_pos rfl).mpr connected⟩

theorem Determined.assignsPort (determined : Determined buf) : AssignsPort buf := by
  have kept (ret : Int) (pr : ParsedRequest) :
      ¬ ∀ word, parsedRequestParse 0 (parsedRequestCreate word) buf =
        .ok (ret, { pr with port := .uninitialized word }) := fun parsed =>
    not_determined_of_kept (fun word => ⟨_, _, parsed word, rfl⟩) determined
  have sized : Sized buf := fun refused => kept (-1) (parsedRequestCreate 0) fun word =>
    parse_refused rfl (or_assoc.mp (.inl refused))
  have ended : crlf ++ crlf <:+: cstr buf := by
    by_contra endless
    exact kept (-1) (parsedRequestCreate 0) fun word => parse_refused rfl (.inr (.inr endless))
  refine ⟨sized, ended, fun first lines body request => ?_⟩
  obtain ⟨method, address, after, words, known⟩ :
      ∃ method address after, requestWords first = some (method, address, after) ∧
        (method = ascii "GET" ∨ method = ascii "CONNECT") := by
    by_contra unknown
    obtain ⟨method, refused⟩ := request.parse_unknown sized fun method address after words =>
      not_or.mp fun known => unknown ⟨method, address, after, words, known⟩
    exact kept (-1) { parsedRequestCreate 0 with method } fun word => refused 0 _ rfl
  have spaced : after ≠ [] := by
    rintro rfl
    obtain ⟨result, parsed⟩ := determined.ok 0 0
    rw [request.parse_noVersion sized words known rfl] at parsed
    simp at parsed
  obtain ⟨block, start, fullAddr, version, cut⟩ := exists_cut request.first.2 words spaced known
  have http : HttpVersion after := by
    by_contra other
    exact kept (-1) (withLine (parsedRequestCreate 0) block start version).release fun word =>
      request.parse_notHttp sized cut other rfl
  exact ⟨method, address, after, words, known, http,
    determined.portAssigned sized request words known http⟩

/-- Two parses of an input agree exactly when it is read to the end of its target and the target
gives the port a value: a `CONNECT`, a relative target, or an absolute one with a good port. -/
theorem determined_iff_assignsPort (buf : Bytes) : Determined buf ↔ AssignsPort buf :=
  ⟨Determined.assignsPort, .of_assignsPort⟩

theorem portless_undetermined : ¬ Determined (ascii "GET http://a/ HTTP/1.1\r\n\r\n") := by
  intro determined
  obtain ⟨ret, pr, pr', parsed, parsed', view⟩ := determined.same 0 0 0 1
  have left : ∀ word < 2, (parsedRequestParse 0 (parsedRequestCreate word)
      (ascii "GET http://a/ HTTP/1.1\r\n\r\n")).toOption.map (·.2.port) =
        some (.uninitialized word) := by
    decide +kernel
  have first := left 0 (by decide)
  have second := left 1 (by decide)
  rw [parsed] at first
  rw [parsed'] at second
  have same : some pr.port = some pr'.port := congrArg (some ·.port) view
  exact absurd (first.symm.trans (same.trans second)) (by decide)

end Parse

end ProxyServer.ProxyParse
