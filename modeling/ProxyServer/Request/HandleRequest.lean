import ProxyServer.Filter.ContentType

namespace ProxyServer

structure Segment (maxBytes : Nat) where
  bytes : Bytes
  nonempty : bytes ≠ []
  fits : bytes.length ≤ maxBytes

/-- A segment, whether `realloc` succeeds if it is called for it, and the number of its bytes that
`send` takes, if that succeeds. -/
structure Chunk (maxBytes : Nat) extends Segment maxBytes where
  realloc : Bool
  sent : Option Nat

inductive Ending where
  | closed
  | failed
  deriving DecidableEq

inductive Call where
  | realloc
  | send
  deriving DecidableEq

inductive Exit where
  | recv (ending : Ending)
  | failed (call : Call)
  | blocked
  deriving DecidableEq

inductive ToClient where
  | upstream (bytes : Bytes)
  | forbidden (response : Bytes)
  deriving DecidableEq

/-- `response` is `RESPONSE`; `received` has every chunk that `recv` returned, also one that could
not be appended. -/
structure Received where
  capacity : Nat
  response : Bytes
  received : List Bytes
  toClient : List ToClient
  exit : Exit
  deriving DecidableEq

/-- An allocation that is full doubles, once. -/
def grow (capacity needed : Nat) : Nat := if capacity < needed then capacity * 2 else capacity

def headersComplete (response : Bytes) : Bool :=
  (memmem response (ascii "\r\n\r\n")).isSome || (memmem response (ascii "\n\n")).isSome

variable {maxBytes : Nat}

def receiveLoop (f : ContentFilter) (ending : Ending) :
    Nat → Bytes → List (Chunk maxBytes) → Received
  | capacity, response, [] => ⟨capacity, response, [], [], .recv ending⟩
  | capacity, response, chunk :: rest =>
      let needed := response.length + chunk.bytes.length + 1
      if capacity < needed ∧ chunk.realloc = false then
        ⟨capacity * 2, response, [chunk.bytes], [], .failed .realloc⟩
      else
        let capacity := grow capacity needed
        let response := response ++ chunk.bytes
        if headersComplete response && contentBlocked f response then
          ⟨capacity, response, [chunk.bytes], [], .blocked⟩
        else
          match chunk.sent with
          | none => ⟨capacity, response, [chunk.bytes], [], .failed .send⟩
          | some n =>
              let later := receiveLoop f ending capacity response rest
              { later with
                received := chunk.bytes :: later.received
                toClient := .upstream (chunk.bytes.take n) :: later.toClient }

def blockResponse (f : ContentFilter) : Bytes :=
  let page := filterGetBlockPage f
  (ascii "HTTP/1.1 403 Forbidden\r\nContent-Type: text/html\r\nContent-Length: " ++
    ascii (toString page.length) ++ ascii "\r\nConnection: close\r\n\r\n" ++ page).take 1023

structure Exchange (maxBytes : Nat) where
  connected : Bool
  requestSent : Bool
  malloc : Bool
  chunks : List (Chunk maxBytes)
  ending : Ending

/-- `stored` has the `DATA` and the `SIZE` that `AddCache` is called with, the latter an `int`. -/
structure Handled where
  ret : Int
  toClient : List ToClient
  loop : Option Received
  stored : Option (Bytes × Int)
  deriving DecidableEq

def handleRequest (f : ContentFilter) (x : Exchange maxBytes) : Handled :=
  if x.connected = false then ⟨-1, [], none, none⟩
  else if x.requestSent = false then ⟨-1, [], none, none⟩
  else if x.malloc = false then ⟨-1, [], none, none⟩
  else
    let loop := receiveLoop f x.ending maxBytes [] x.chunks
    if loop.exit = .blocked then
      -- The page is sent twice.
      ⟨0, loop.toClient ++ [.forbidden (blockResponse f), .forbidden (blockResponse f)],
        some loop, none⟩
    else if contentBlocked f loop.response then
      ⟨0, loop.toClient ++ [.forbidden (blockResponse f)], some loop, none⟩
    else ⟨0, loop.toClient, some loop, some (loop.response, toInt loop.response.length)⟩

def contents (chunks : List (Chunk maxBytes)) : Bytes := chunks.flatMap (·.bytes)

def firstFailure : Nat → Nat → List (Chunk maxBytes) → Option Call
  | _, _, [] => none
  | capacity, length, chunk :: rest =>
      let needed := length + chunk.bytes.length + 1
      if capacity < needed ∧ chunk.realloc = false then some .realloc
      else if chunk.sent = none then some .send
      else firstFailure (grow capacity needed) (length + chunk.bytes.length) rest

def appended : Nat → Nat → List (Chunk maxBytes) → List (Chunk maxBytes)
  | _, _, [] => []
  | capacity, length, chunk :: rest =>
      let needed := length + chunk.bytes.length + 1
      if capacity < needed ∧ chunk.realloc = false then []
      else if chunk.sent = none then [chunk]
      else chunk :: appended (grow capacity needed) (length + chunk.bytes.length) rest

theorem appended_eq_self {capacity length : Nat} {chunks : List (Chunk maxBytes)}
    (intact : firstFailure capacity length chunks = none) :
    appended capacity length chunks = chunks := by
  induction chunks generalizing capacity length with
  | nil => rfl
  | cons chunk rest ih =>
      simp only [firstFailure] at intact
      simp only [appended]
      split at intact
      · simp at intact
      · rename_i reallocated
        split at intact
        · simp at intact
        · rename_i sent
          rw [if_neg reallocated, if_neg sent, ih intact]

theorem receiveLoop_spec (f : ContentFilter) (ending : Ending) (capacity : Nat)
    (response : Bytes) (chunks : List (Chunk maxBytes)) :
    let loop := receiveLoop f ending capacity response chunks
    let whole := response ++ contents (appended capacity response.length chunks)
    (loop.exit = .blocked ∧ contentBlocked f whole = true) ∨
      (loop.exit ≠ .blocked ∧
        loop.exit = (firstFailure capacity response.length chunks).elim (.recv ending) .failed ∧
        loop.response = whole ∧
        (firstFailure capacity response.length chunks = none →
          loop.received = chunks.map (·.bytes))) := by
  induction chunks generalizing capacity response with
  | nil => simp [receiveLoop, appended, contents, firstFailure]
  | cons chunk rest ih =>
      simp only [receiveLoop, appended, firstFailure]
      by_cases broken :
          capacity < response.length + chunk.bytes.length + 1 ∧ chunk.realloc = false
      · simp [broken, contents]
      · simp only [if_neg broken]
        by_cases blocks : (headersComplete (response ++ chunk.bytes) &&
            contentBlocked f (response ++ chunk.bytes)) = true
        · left
          rw [if_pos blocks]
          refine ⟨rfl, ?_⟩
          have more := contentBlocked_append (Bool.and_eq_true_iff.mp blocks).2
          split
          · simpa [contents] using more []
          · simpa [contents, List.append_assoc] using more _
        · rw [if_neg blocks]
          cases sent : chunk.sent with
          | none => simp [contents]
          | some n =>
              have later := ih (grow capacity (response.length + chunk.bytes.length + 1))
                (response ++ chunk.bytes)
              simp only [List.length_append] at later
              simpa [contents, List.append_assoc] using later

theorem grow_enough {capacity length n : Nat} (room : length < capacity) (large : n ≤ capacity) :
    length + n + 1 ≤ grow capacity (length + n + 1) := by
  unfold grow
  split <;> omega

theorem grow_le (capacity needed : Nat) : capacity ≤ grow capacity needed := by
  unfold grow
  split <;> omega

theorem receiveLoop_capacity (f : ContentFilter) (ending : Ending) {capacity : Nat}
    {response : Bytes} (chunks : List (Chunk maxBytes)) (room : response.length < capacity)
    (large : maxBytes ≤ capacity) :
    let loop := receiveLoop f ending capacity response chunks
    loop.response.length < loop.capacity := by
  induction chunks generalizing capacity response with
  | nil => exact room
  | cons chunk rest ih =>
      have enough := grow_enough room (chunk.fits.trans large)
      have fits : (response ++ chunk.bytes).length <
          grow capacity (response.length + chunk.bytes.length + 1) := by
        rw [List.length_append]
        omega
      simp only [receiveLoop]
      split
      · dsimp only
        omega
      · split
        · exact fits
        · split
          · exact fits
          · exact ih fits (large.trans (grow_le _ _))

def Exchange.reached (x : Exchange maxBytes) : Bool := x.connected && x.requestSent && x.malloc

def Exchange.intake (x : Exchange maxBytes) : Bytes := contents (appended maxBytes 0 x.chunks)

theorem handleRequest_unreached {f : ContentFilter} {x : Exchange maxBytes}
    (unreached : x.reached = false) : handleRequest f x = ⟨-1, [], none, none⟩ := by
  simp only [Exchange.reached, Bool.and_eq_false_iff] at unreached
  simp only [handleRequest]
  grind

theorem handleRequest_reached {f : ContentFilter} {x : Exchange maxBytes}
    (reached : x.reached = true) :
    let loop := receiveLoop f x.ending maxBytes [] x.chunks
    handleRequest f x =
      if loop.exit = .blocked then
        ⟨0, loop.toClient ++ [.forbidden (blockResponse f), .forbidden (blockResponse f)],
          some loop, none⟩
      else if contentBlocked f loop.response then
        ⟨0, loop.toClient ++ [.forbidden (blockResponse f)], some loop, none⟩
      else ⟨0, loop.toClient, some loop, some (loop.response, toInt loop.response.length)⟩ := by
  simp only [Exchange.reached, Bool.and_eq_true] at reached
  simp [handleRequest, reached]

theorem handleRequest_blocked {f : ContentFilter} {x : Exchange maxBytes}
    (reached : x.reached = true) (blocked : contentBlocked f x.intake = true) :
    ∃ loop pages, handleRequest f x = ⟨0, loop.toClient ++ pages, some loop, none⟩ ∧
      loop = receiveLoop f x.ending maxBytes [] x.chunks ∧
      (loop.exit = .blocked ∧
          pages = [.forbidden (blockResponse f), .forbidden (blockResponse f)] ∨
        loop.exit ≠ .blocked ∧ pages = [.forbidden (blockResponse f)]) := by
  have spec := receiveLoop_spec f x.ending maxBytes [] x.chunks
  simp only [List.nil_append, List.length_nil] at spec
  rw [handleRequest_reached reached]
  cases spec with
  | inl inLoop => exact ⟨_, _, if_pos inLoop.1, rfl, .inl ⟨inLoop.1, rfl⟩⟩
  | inr after =>
      obtain ⟨notBlocked, _, response, _⟩ := after
      refine ⟨_, _, ?_, rfl, .inr ⟨notBlocked, rfl⟩⟩
      rw [if_neg notBlocked, response]
      exact if_pos blocked

theorem handleRequest_passed {f : ContentFilter} {x : Exchange maxBytes}
    (reached : x.reached = true) (passed : contentBlocked f x.intake = false) :
    ∃ loop, handleRequest f x =
        ⟨0, loop.toClient, some loop, some (x.intake, toInt x.intake.length)⟩ ∧
      loop = receiveLoop f x.ending maxBytes [] x.chunks ∧
      loop.exit = (firstFailure maxBytes 0 x.chunks).elim (.recv x.ending) .failed ∧
      (firstFailure maxBytes 0 x.chunks = none → loop.received = x.chunks.map (·.bytes)) := by
  rw [handleRequest_reached reached]
  have spec := receiveLoop_spec f x.ending maxBytes [] x.chunks
  simp only [List.nil_append, List.length_nil] at spec
  cases spec with
  | inl inLoop =>
      rw [Exchange.intake, inLoop.2] at passed
      simp at passed
  | inr after =>
      obtain ⟨notBlocked, exit, response, received⟩ := after
      refine ⟨_, ?_, rfl, exit, received⟩
      have isIntake : (receiveLoop f x.ending maxBytes [] x.chunks).response = x.intake :=
        response
      rw [if_neg notBlocked, isIntake, if_neg (by simp [passed])]

end ProxyServer
