import ProxyServer.Decimal
import ProxyServer.Filter.Lists
import ProxyServer.Lib.Lines
import ProxyServer.Request.HandleRequest

namespace ProxyServer
open Lib Lines Filter

structure TimeText where
  text : Bytes
  short : text.length < 50
  clean : 13 ∉ text

def throwForbidden (f : ContentFilter) (currentTime : TimeText) : Bytes :=
  let html := filterGetBlockPage f
  (ascii "HTTP/1.1 403 Forbidden\r\nContent-Length: " ++ ascii (toString html.length) ++
    ascii "\r\nContent-Type: text/html\r\nConnection: keep-alive\r\nDate: " ++ currentTime.text ++
    ascii "\r\nServer: VaibhavN/14785\r\n\r\n" ++ html).take 1023

def contentLengthField (line : Bytes) : Option Bytes :=
  if (line.takeWhile (· != 58)).map tolower = ascii "content-length" then
    some (((line.dropWhile (· != 58)).drop 1).dropWhile isspace)
  else none

def contentLengths (head : Bytes) : List Bytes := (linesOf head).tail.filterMap contentLengthField

def WellFramed (page message : Bytes) : Prop :=
  ∃ head, message = head ++ (crlf ++ crlf ++ page) ∧ lineOf head = ascii "HTTP/1.1 403 Forbidden" ∧
    memmem message (crlf ++ crlf) = some (crlf ++ crlf ++ page) ∧
    contentLengths head = [printed page.length]

def pageFilter (types : List Bytes) (file : Option Bytes) : ContentFilter :=
  ⟨true, types, loadBlockPage file⟩

theorem loadBlockPage_some {page : Bytes} (string : 0 ∉ page) (short : page.length ≤ 8191) :
    loadBlockPage (some page) = page := by
  rw [loadBlockPage, Option.elim_some, List.take_of_length_le short, cstr_of_string string]

def forbiddenLine : Bytes := ascii "HTTP/1.1 403 Forbidden"

theorem wellFramed_take {lines : List Bytes} {page : Bytes}
    (clean : ∀ line ∈ lines, line ≠ [] ∧ 13 ∉ line)
    (named : lines.filterMap contentLengthField = [printed page.length]) (n : Nat) :
    WellFramed page ((forbiddenLine ++ joined lines ++ (crlf ++ crlf ++ page)).take n) ↔
      (forbiddenLine ++ joined lines ++ (crlf ++ crlf ++ page)).length ≤ n := by
  have lineClean : 13 ∉ forbiddenLine := by decide
  have whole := memmem_section lineClean clean page
  generalize isWhole : forbiddenLine ++ joined lines ++ (crlf ++ crlf ++ page) = message at whole
  constructor
  · rintro ⟨head, split, -, found, -⟩
    -- Nothing can follow what was sent, for the page is all that follows the empty line.
    have all := memmem_append found (message.drop n)
    rw [List.take_append_drop, whole, Option.some.injEq] at all
    have rest : message.drop n = [] := by simpa using all
    simpa using rest
  · intro fits
    have noPair : ∀ line ∈ forbiddenLine :: lines, ¬ crlf <:+: line := by
      intro line member inside
      have noReturn : 13 ∉ line := by
        rcases List.mem_cons.mp member with rfl | member
        · exact lineClean
        · exact (clean line member).2
      exact noReturn (inside.subset (by simp [crlf]))
    rw [List.take_of_length_le fits]
    refine ⟨forbiddenLine ++ joined lines, isWhole.symm, ?_, whole, ?_⟩
    · cases lines with
      | nil =>
          rw [joined_nil, List.append_nil]
          rfl
      | cons line lines =>
          rw [joined_cons]
          exact lineOf_append (noPair _ List.mem_cons_self) _
    · rw [contentLengths, linesOf_joined noPair, List.tail_cons, named]

theorem isPrinted (page : Bytes) : 13 ∉ printed page.length ∧
    (printed page.length).dropWhile isspace = printed page.length := by
  obtain ⟨digits, nonempty, -⟩ := printed_digits page.length
  have digit := List.all_eq_true.mp digits
  refine ⟨fun inside => absurd (digit 13 inside) (by decide), ?_⟩
  obtain ⟨c, rest, isNumber⟩ := List.exists_cons_of_ne_nil nonempty
  rw [isNumber] at digit ⊢
  exact List.dropWhile_cons_of_neg (by simp [(isdigit_ne (digit c List.mem_cons_self)).1])

theorem contentLengthField_printed (page : Bytes) :
    contentLengthField (ascii "Content-Length: " ++ printed page.length) =
      some (printed page.length) := by
  have name : ((ascii "Content-Length: " ++ printed page.length).takeWhile (· != 58)).map tolower =
      ascii "content-length" := rfl
  have value : ((ascii "Content-Length: " ++ printed page.length).dropWhile (· != 58)).drop 1 =
      32 :: printed page.length := rfl
  rw [contentLengthField, if_pos name, value, List.dropWhile_cons_of_pos (by decide),
    (isPrinted page).2]

theorem head_lines (page : Bytes) (before after : List Bytes)
    (clean : ∀ line ∈ before ++ after, line ≠ [] ∧ 13 ∉ line)
    (others : ∀ line ∈ before ++ after, contentLengthField line = none) :
    let lines := before ++ (ascii "Content-Length: " ++ printed page.length) :: after
    (∀ line ∈ lines, line ≠ [] ∧ 13 ∉ line) ∧
      lines.filterMap contentLengthField = [printed page.length] := by
  rw [List.forall_mem_append] at clean others
  constructor
  · rw [List.forall_mem_append, List.forall_mem_cons]
    refine ⟨clean.1, ⟨by simp [ascii], ?_⟩, clean.2⟩
    rw [List.mem_append, not_or]
    exact ⟨by decide, (isPrinted page).1⟩
  · rw [List.filterMap_append, List.filterMap_cons_some (contentLengthField_printed page),
      List.filterMap_eq_nil_iff.mpr others.1, List.filterMap_eq_nil_iff.mpr others.2]
    rfl

theorem throwForbidden_eq (f : ContentFilter) (currentTime : TimeText) :
    throwForbidden f currentTime =
      (forbiddenLine ++ joined ([] ++ (ascii "Content-Length: " ++
          printed (filterGetBlockPage f).length) ::
        [ascii "Content-Type: text/html", ascii "Connection: keep-alive",
          ascii "Date: " ++ currentTime.text, ascii "Server: VaibhavN/14785"]) ++
        (crlf ++ crlf ++ filterGetBlockPage f)).take 1023 := by
  have front : ascii "HTTP/1.1 403 Forbidden\r\nContent-Length: " =
      forbiddenLine ++ (crlf ++ ascii "Content-Length: ") := by decide
  have middle : ascii "\r\nContent-Type: text/html\r\nConnection: keep-alive\r\nDate: " =
      crlf ++ (ascii "Content-Type: text/html" ++ (crlf ++ (ascii "Connection: keep-alive" ++
        (crlf ++ ascii "Date: ")))) := by decide
  have last : ascii "\r\nServer: VaibhavN/14785\r\n\r\n" =
      crlf ++ (ascii "Server: VaibhavN/14785" ++ (crlf ++ crlf)) := by decide
  rw [throwForbidden, ascii_toString]
  simp only [front, middle, last, joined_cons, joined_nil, List.nil_append, List.append_nil,
    List.append_assoc]

theorem blockResponse_eq (f : ContentFilter) :
    blockResponse f =
      (forbiddenLine ++ joined ([ascii "Content-Type: text/html"] ++
        (ascii "Content-Length: " ++ printed (filterGetBlockPage f).length) ::
        [ascii "Connection: close"]) ++ (crlf ++ crlf ++ filterGetBlockPage f)).take 1023 := by
  have front : ascii "HTTP/1.1 403 Forbidden\r\nContent-Type: text/html\r\nContent-Length: " =
      forbiddenLine ++ (crlf ++ (ascii "Content-Type: text/html" ++ (crlf ++
        ascii "Content-Length: "))) := by decide
  have last : ascii "\r\nConnection: close\r\n\r\n" =
      crlf ++ (ascii "Connection: close" ++ (crlf ++ crlf)) := by decide
  rw [blockResponse, ascii_toString]
  simp only [front, last, List.cons_append, joined_cons, joined_nil, List.nil_append,
    List.append_nil, List.append_assoc]

theorem fits_iff (page : Bytes) {n : Nat} (least : 102 ≤ n) (most : n ≤ 1002) :
    page.length + (printed page.length).length ≤ n ↔ page.length + 3 ≤ n := by
  constructor
  · intro fits
    have three : 2 < (printed page.length).length ∨ page.length < 100 := by
      by_cases large : 10 ^ 2 ≤ page.length
      · exact Or.inl (lt_length_printed large)
      · exact Or.inr (by omega)
    omega
  · intro fits
    have three : (printed page.length).length ≤ 2 + 1 := length_printed_le (by omega)
    omega

theorem wellFramed_throwForbidden (f : ContentFilter) (currentTime : TimeText) :
    WellFramed (filterGetBlockPage f) (throwForbidden f currentTime) ↔
      (filterGetBlockPage f).length + currentTime.text.length ≤ 895 := by
  obtain ⟨clean, named⟩ := head_lines (filterGetBlockPage f) []
    [ascii "Content-Type: text/html", ascii "Connection: keep-alive",
      ascii "Date: " ++ currentTime.text, ascii "Server: VaibhavN/14785"]
    (by simpa [ascii] using currentTime.clean) (by simp [contentLengthField, ascii, tolower])
  rw [throwForbidden_eq, wellFramed_take clean named]
  have short := currentTime.short
  have fits : _ ≤ 898 - currentTime.text.length ↔ _ :=
    fits_iff (filterGetBlockPage f) (by omega) (by omega)
  simp only [forbiddenLine, crlf, joined_cons, joined_nil, List.nil_append, List.length_append,
    List.length_cons, List.length_nil]
  simp [ascii]
  omega

theorem wellFramed_blockResponse (f : ContentFilter) :
    WellFramed (filterGetBlockPage f) (blockResponse f) ↔ (filterGetBlockPage f).length ≤ 932 := by
  obtain ⟨clean, named⟩ := head_lines (filterGetBlockPage f) [ascii "Content-Type: text/html"]
    [ascii "Connection: close"] (by decide) (by decide)
  rw [blockResponse_eq, wellFramed_take clean named]
  have fits : _ ≤ 935 ↔ _ := fits_iff (filterGetBlockPage f) (by omega) (by omega)
  simp only [forbiddenLine, crlf, List.cons_append, joined_cons, joined_nil, List.nil_append,
    List.length_append, List.length_cons, List.length_nil]
  simp [ascii]
  omega

variable {maxBytes : Nat}

theorem forbidden_notMem_loop (f : ContentFilter) (ending : Ending) (capacity : Nat)
    (response : Bytes) (chunks : List (Chunk maxBytes)) (message : Bytes) :
    .forbidden message ∉ (receiveLoop f ending capacity response chunks).toClient := by
  induction chunks generalizing capacity response with
  | nil => simp [receiveLoop]
  | cons chunk rest ih =>
      simp only [receiveLoop]
      split
      · simp
      · split
        · simp
        · split
          · simp
          · rw [List.mem_cons, not_or]
            exact ⟨by simp, ih _ _⟩

theorem forbidden_of_mem {f : ContentFilter} {x : Exchange maxBytes} {message : Bytes}
    (sent : .forbidden message ∈ (handleRequest f x).toClient) : message = blockResponse f := by
  cases reached : x.reached with
  | false => simp [handleRequest_unreached reached] at sent
  | true =>
      have upstream := forbidden_notMem_loop f x.ending maxBytes [] x.chunks message
      rw [handleRequest_reached reached] at sent
      split at sent
      · simpa [upstream] using sent
      · split at sent
        · simpa [upstream] using sent
        · exact absurd sent upstream

theorem wellFramed_iff (types : List Bytes) (file : Option Bytes) (currentTime : TimeText) :
    let f := pageFilter types file
    let page := loadBlockPage file
    (WellFramed page (throwForbidden f currentTime) ↔
      page.length + currentTime.text.length ≤ 895) ∧
    (WellFramed page (blockResponse f) ↔ page.length ≤ 932) ∧
    ∀ {maxBytes} (x : Exchange maxBytes) message,
      .forbidden message ∈ (handleRequest f x).toClient → message = blockResponse f :=
  ⟨wellFramed_throwForbidden (pageFilter types file) currentTime,
    wellFramed_blockResponse (pageFilter types file), fun _ _ sent => forbidden_of_mem sent⟩

def epoch : TimeText where
  text := ascii "Thu, 01 Jan 1970 00:00:00 GMT"
  short := by decide
  clean := by decide

def largePage : Bytes := List.replicate 1000 120

theorem largePage_cut :
    loadBlockPage (some largePage) = largePage ∧
    ¬ WellFramed largePage (throwForbidden (pageFilter [] (some largePage)) epoch) ∧
    ¬ WellFramed largePage (blockResponse (pageFilter [] (some largePage))) := by
  have length : largePage.length = 1000 := List.length_replicate
  have loaded : loadBlockPage (some largePage) = largePage :=
    loadBlockPage_some
      (fun inside => absurd (List.eq_of_mem_replicate inside) (by decide)) (by omega)
  have page : filterGetBlockPage (pageFilter [] (some largePage)) = largePage := loaded
  have thrown := wellFramed_throwForbidden (pageFilter [] (some largePage)) epoch
  have blocked := wellFramed_blockResponse (pageFilter [] (some largePage))
  rw [page, length] at thrown blocked
  refine ⟨loaded, ?_, ?_⟩
  · rw [thrown]
    omega
  · rw [blocked]
    omega

end ProxyServer
