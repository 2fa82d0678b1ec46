import ProxyServer.Request.HandleRequest

namespace ProxyServer

variable {maxBytes : Nat}

def OnlyComplete (h : Handled) : Prop :=
  ∀ data size, h.stored = some (data, size) → ∃ loop, h.loop = some loop ∧
    loop.exit = .recv .closed ∧ data ≠ [] ∧ data = loop.received.flatten ∧ size = data.length

def Exchange.Whole (x : Exchange maxBytes) : Prop :=
  firstFailure maxBytes 0 x.chunks = none ∧ x.ending = .closed ∧ x.chunks ≠ [] ∧
    x.intake.length < 2 ^ 31

/-- The exchange ends before anything is received, what is received before the first failure is
blocked, or nothing fails. -/
def Exchange.WholeOrDropped (f : ContentFilter) (x : Exchange maxBytes) : Prop :=
  x.reached = false ∨ contentBlocked f x.intake = true ∨ x.Whole

theorem contents_eq_nil {chunks : List (Chunk maxBytes)} :
    contents chunks = [] ↔ chunks = [] := by
  cases chunks with
  | nil => simp [contents]
  | cons chunk rest => simp [contents, chunk.nonempty]

theorem onlyComplete_iff_wholeOrDropped (f : ContentFilter) (x : Exchange maxBytes) :
    OnlyComplete (handleRequest f x) ↔ x.WholeOrDropped f := by
  cases reached : x.reached with
  | false => simp [OnlyComplete, Exchange.WholeOrDropped, handleRequest_unreached reached, reached]
  | true =>
      cases blocked : contentBlocked f x.intake with
      | true =>
          obtain ⟨loop, pages, handled, _⟩ := handleRequest_blocked reached blocked
          simp [OnlyComplete, Exchange.WholeOrDropped, handled, blocked]
      | false =>
          obtain ⟨loop, handled, _, exit, received⟩ := handleRequest_passed reached blocked
          simp only [Exchange.WholeOrDropped, reached, blocked, Bool.true_eq_false,
            Bool.false_eq_true, false_or]
          constructor
          · intro only
            obtain ⟨loop', isLoop, closed, nonempty, _, size⟩ :=
              only x.intake (toInt x.intake.length) (by rw [handled])
            rw [handled, Option.some.injEq] at isLoop
            rw [← isLoop, exit] at closed
            cases failure : firstFailure maxBytes 0 x.chunks with
            | some call => simp [failure] at closed
            | none =>
                refine ⟨failure, by simpa [failure] using closed, ?_, toInt_length.mp size⟩
                intro empty
                simp [Exchange.intake, empty, appended, contents] at nonempty
          · intro whole data size stored
            obtain ⟨intact, closed, nonempty, small⟩ := whole
            have all : x.intake = contents x.chunks := by
              rw [Exchange.intake, appended_eq_self intact]
            rw [handled, Option.some.injEq, Prod.mk.injEq] at stored
            obtain ⟨rfl, rfl⟩ := stored
            refine ⟨loop, by rw [handled], by rw [exit, intact, closed]; rfl, ?_, ?_,
              toInt_length.mpr small⟩
            · rw [all, Ne, contents_eq_nil]
              exact nonempty
            · rw [received intact, all, contents, List.flatMap_def]

def cutShort : Exchange 4096 where
  connected := true
  requestSent := true
  malloc := true
  chunks := [⟨⟨ascii "HTTP/1.1 200 OK\r\n\r\nHel", by decide, by decide⟩, true, some 22⟩]
  ending := .failed

theorem cut_short_stored : ¬ OnlyComplete (handleRequest ⟨false, [], []⟩ cutShort) := by
  intro only
  obtain ⟨loop, isLoop, closed, _⟩ :=
    only (ascii "HTTP/1.1 200 OK\r\n\r\nHel") 22 (by decide +kernel)
  have failed : (handleRequest ⟨false, [], []⟩ cutShort).loop.map (·.exit) =
      some (.recv .failed) := by decide +kernel
  rw [isLoop, Option.map_some, closed] at failed
  simp at failed

def AllOrNothing (f : ContentFilter) (response : Bytes) (h : Handled) : Prop :=
  if declaresBlocked f response then
    h.toClient = [.forbidden (blockResponse f)] ∧ h.stored = none
  else ∃ parts : List Bytes, h.toClient = parts.map .upstream ∧ parts.flatten = response

def Segment.passed (s : Segment maxBytes) : Chunk maxBytes :=
  { s with realloc := true, sent := some s.bytes.length }

def Exchange.undisturbed (segments : List (Segment maxBytes)) : Exchange maxBytes :=
  { connected := true, requestSent := true, malloc := true,
    chunks := segments.map Segment.passed, ending := .closed }

theorem firstFailure_passed (capacity length : Nat) (segments : List (Segment maxBytes)) :
    firstFailure capacity length (segments.map Segment.passed) = none := by
  induction segments generalizing capacity length with
  | nil => rfl
  | cons s rest ih => simp [firstFailure, Segment.passed] at ih ⊢; exact ih _ _

theorem toClient_passed {f : ContentFilter} {ending : Ending} {capacity : Nat} {response : Bytes}
    {segments : List (Segment maxBytes)}
    (notBlocked : (receiveLoop f ending capacity response (segments.map Segment.passed)).exit ≠
      .blocked) :
    (receiveLoop f ending capacity response (segments.map Segment.passed)).toClient =
      segments.map fun s => .upstream s.bytes := by
  induction segments generalizing capacity response with
  | nil => rfl
  | cons s rest ih =>
      simp only [List.map_cons, receiveLoop, Segment.passed, Bool.true_eq_false, and_false,
        if_false] at notBlocked ⊢
      split at notBlocked
      · exact absurd rfl notBlocked
      · rename_i passes
        rw [if_neg passes]
        simp only [List.take_length]
        rw [← ih notBlocked]

theorem contents_passed (segments : List (Segment maxBytes)) :
    contents (segments.map Segment.passed) = segments.flatMap (·.bytes) := by
  rw [contents, List.flatMap_map]
  rfl

theorem undisturbed_intake (segments : List (Segment maxBytes)) :
    (Exchange.undisturbed segments).intake = segments.flatMap (·.bytes) := by
  rw [Exchange.intake, Exchange.undisturbed, appended_eq_self (firstFailure_passed _ _ _),
    contents_passed]

theorem toClient_of_blocked {f : ContentFilter} {segments : List (Segment maxBytes)}
    (blocked : contentBlocked f (segments.flatMap (·.bytes)) = true) :
    let toClient := (handleRequest f (.undisturbed segments)).toClient
    .forbidden (blockResponse f) ∈ toClient ∧ toClient ≠ [.forbidden (blockResponse f)] := by
  have intake : contentBlocked f (Exchange.undisturbed segments).intake = true := by
    rw [undisturbed_intake]
    exact blocked
  obtain ⟨loop, pages, handled, isLoop, which⟩ := handleRequest_blocked rfl intake
  rw [handled]
  cases which with
  | inl inLoop =>
      rw [inLoop.2]
      refine ⟨by simp, ?_⟩
      intro alone
      simpa using congrArg List.length alone
  | inr after =>
      obtain ⟨notBlocked, once⟩ := after
      have relayed : loop.toClient = segments.map fun s => .upstream s.bytes := by
        rw [isLoop] at notBlocked ⊢
        exact toClient_passed notBlocked
      rw [once, relayed]
      refine ⟨by simp, ?_⟩
      intro alone
      have none : segments = [] := by simpa using alone
      simp [none, contentBlocked, parseContentTypeHeader, memmem, ascii] at blocked

theorem allOrNothing_iff_neither (f : ContentFilter) (segments : List (Segment maxBytes)) :
    let response := segments.flatMap (·.bytes)
    AllOrNothing f response (handleRequest f (.undisturbed segments)) ↔
      declaresBlocked f response = false ∧ contentBlocked f response = false := by
  intro response
  rw [AllOrNothing]
  cases blocked : contentBlocked f response with
  | true =>
      obtain ⟨answered, notAlone⟩ := toClient_of_blocked blocked
      simp only [Bool.true_eq_false, and_false, iff_false]
      split
      · intro alone
        exact notAlone alone.1
      · intro relayed
        obtain ⟨parts, isRelayed, _⟩ := relayed
        rw [isRelayed] at answered
        simp at answered
  | false =>
      have passed : contentBlocked f (Exchange.undisturbed segments).intake = false := by
        rw [undisturbed_intake]
        exact blocked
      obtain ⟨loop, handled, isLoop, exit, _⟩ := handleRequest_passed rfl passed
      cases declares : declaresBlocked f response with
      | true => simp [handled]
      | false =>
          have relayed : loop.toClient = segments.map fun s => .upstream s.bytes := by
            rw [isLoop]
            apply toClient_passed
            rw [isLoop, Exchange.undisturbed, firstFailure_passed] at exit
            rw [Exchange.undisturbed, exit]
            simp
          simp only [and_self, iff_true]
          refine ⟨segments.map (·.bytes), ?_, ?_⟩
          · simp [handled, relayed]
          · exact List.flatMap_def.symm

def noImages : ContentFilter := ⟨true, [ascii "image/png"], ascii "Forbidden"⟩

def imageResponse : Segment 4096 :=
  ⟨ascii "HTTP/1.1 200 OK\r\nContent-Type: image/png\r\n\r\nX", by decide, by decide⟩

theorem image_answered_twice :
    ¬ AllOrNothing noImages ([imageResponse].flatMap (·.bytes))
      (handleRequest noImages (.undisturbed [imageResponse])) := by
  have declared : declaresBlocked noImages ([imageResponse].flatMap (·.bytes)) = true := by
    decide +kernel
  rw [AllOrNothing, if_pos declared]
  decide +kernel

end ProxyServer
