import ProxyServer.ProxyParse.FieldGrammar
import ProxyServer.Request.Forward

namespace ProxyServer.ProxyParse
open Lib Lib.Block Lib.Lines

def fieldsIn (lines : List Bytes) : List (Bytes × Bytes) :=
  ((lines.takeWhile (· ≠ [])).filter (58 ∈ ·)).map fieldOf

def receivedFields (request : Bytes) : List (Bytes × Bytes) := fieldsIn (linesOf request).tail

def valuesOf (name : Bytes) (fields : List (Bytes × Bytes)) : List Bytes :=
  (fields.filter (·.1.map tolower = name)).map (·.2)

def EndsSection (key : Bytes) : Prop := [] ∈ (linesOf key).dropLast

instance (key : Bytes) : Decidable (EndsSection key) :=
  inferInstanceAs (Decidable ([] ∈ (linesOf key).dropLast))

def shownName (key : Bytes) : Bytes := (linesOf key).getLastD []

def shown (fields : List (Bytes × Bytes)) : List (Bytes × Bytes) :=
  (fields.takeWhile (¬ EndsSection ·.1)).map fun field => (shownName field.1, trimOws field.2)

def Whole (fields : List (Bytes × Bytes)) : Prop := ∀ field ∈ fields, ¬ EndsSection field.1

instance (fields : List (Bytes × Bytes)) : Decidable (Whole fields) :=
  inferInstanceAs (Decidable (∀ field ∈ fields, ¬ EndsSection field.1))

section Lines

variable {field : Bytes × Bytes} {fields : List (Bytes × Bytes)}

theorem linesOf_fieldLine (printable : Printable field) :
    linesOf (fieldLine field) =
      (linesOf field.1).dropLast ++ [shownName field.1 ++ (ascii ": " ++ field.2)] := by
  have gap : ¬ crlf <:+: ascii ": " := by decide
  have clean : ¬ crlf <:+: ascii ": " ++ field.2 :=
    clean_append gap printable.clean fun last => absurd last (by decide)
  have boundary : (ascii ": " ++ field.2).head? ≠ some 10 := by simp [ascii]
  obtain ⟨before, last, split, appended⟩ := linesOf_append field.1 boundary
  rw [fieldLine, appended, linesOf_clean clean, shownName, split]
  simp

theorem colon_notMem_dropLast (printable : Printable field) :
    ∀ line ∈ (linesOf field.1).dropLast, 58 ∉ line := fun _ member inside =>
  printable.colon (mem_of_mem_linesOf (List.mem_of_mem_dropLast member) inside)

theorem shownName_colon (printable : Printable field) : 58 ∉ shownName field.1 := by
  intro inside
  rw [shownName, List.getLastD_eq_getLast?, List.getLast?_eq_some_getLast (linesOf_ne_nil _)]
    at inside
  exact printable.colon (mem_of_mem_linesOf (List.getLast_mem _) inside)

theorem fieldOf_fieldLine (printable : Printable field) :
    fieldOf (shownName field.1 ++ (ascii ": " ++ field.2)) =
      (shownName field.1, trimOws field.2) := by
  have isGap : ascii ": " ++ field.2 = 58 :: 32 :: field.2 := rfl
  rw [isGap, fieldOf_cut (shownName_colon printable)]
  rfl

theorem fieldsIn_ended {lines more : List Bytes} (ends : [] ∈ lines)
    (colonless : ∀ line ∈ lines, 58 ∉ line) : fieldsIn (lines ++ more) = [] := by
  have stops : (lines ++ more).takeWhile (· ≠ []) = lines.takeWhile (· ≠ []) := by
    rw [List.takeWhile_append, if_neg]
    intro whole
    have all := (List.takeWhile_prefix _).eq_of_length whole
    rw [← all] at ends
    simpa using List.mem_takeWhile_imp ends
  rw [fieldsIn, stops, List.map_eq_nil_iff, List.filter_eq_nil_iff]
  intro line member
  simpa using colonless line ((List.takeWhile_prefix _).subset member)

theorem fieldsIn_line {lines more : List Bytes} {line : Bytes} (goesOn : [] ∉ lines)
    (colonless : ∀ line ∈ lines, 58 ∉ line) (colon : 58 ∈ line) :
    fieldsIn (lines ++ line :: more) = fieldOf line :: fieldsIn more := by
  have nonempty : line ≠ [] := List.ne_nil_of_mem colon
  have all : ∀ line ∈ lines, decide (line ≠ []) = true := fun line member => by
    simpa using fun empty : line = [] => goesOn (empty ▸ member)
  have none : lines.filter (58 ∈ ·) = [] := by
    rw [List.filter_eq_nil_iff]
    exact fun line member => by simpa using colonless line member
  rw [fieldsIn, List.takeWhile_append_of_pos all, List.filter_append, none,
    List.takeWhile_cons_of_pos (by simpa using nonempty), List.nil_append,
    List.filter_cons_of_pos (by simpa using colon)]
  rfl

theorem fieldsIn_headerText (printable : ∀ field ∈ fields, Printable field) :
    fieldsIn (linesOf (headerText fields)) = shown fields := by
  induction fields with
  | nil => rfl
  | cons field fields ih =>
      obtain ⟨here, rest⟩ := List.forall_mem_cons.mp printable
      have colonless := colon_notMem_dropLast here
      rw [headerText_cons, linesOf_append_crlf, linesOf_fieldLine here, List.append_assoc]
      by_cases ends : EndsSection field.1
      · rw [fieldsIn_ended ends colonless, shown, List.takeWhile_cons_of_neg (by simpa using ends)]
        rfl
      · have colon : 58 ∈ shownName field.1 ++ (ascii ": " ++ field.2) :=
          List.mem_append_right _ (List.mem_append_left _ (by decide))
        rw [List.singleton_append, fieldsIn_line ends colonless colon, ih rest,
          fieldOf_fieldLine here, shown, shown, List.takeWhile_cons_of_pos (by simpa using ends)]
        rfl

theorem receivedFields_eq {line : Bytes} (clean : ¬ crlf <:+: line)
    (printable : ∀ field ∈ fields, Printable field) :
    receivedFields (line ++ (crlf ++ headerText fields)) = shown fields := by
  rw [receivedFields, linesOf_append_crlf, linesOf_clean clean]
  exact fieldsIn_headerText printable

theorem receivedFields_line {line : Bytes} (clean : ¬ crlf <:+: line) :
    receivedFields (line ++ crlf) = [] := by
  have empty : line ++ crlf = line ++ (crlf ++ []) := by simp
  rw [receivedFields, empty, linesOf_append_crlf, linesOf_clean clean]
  rfl

end Lines

section Values

variable {name key : Bytes} {field : Bytes × Bytes} {fields more : List (Bytes × Bytes)}

@[simp] theorem valuesOf_nil : valuesOf name [] = [] := rfl

theorem valuesOf_cons (field : Bytes × Bytes) (fields : List (Bytes × Bytes)) :
    valuesOf name (field :: fields) =
      if field.1.map tolower = name then field.2 :: valuesOf name fields
      else valuesOf name fields := by
  rw [valuesOf, List.filter_cons]
  split <;> rename_i same <;> simp only [decide_eq_true_eq] at same
  · rw [if_pos same]
    rfl
  · rw [if_neg same]
    rfl

theorem valuesOf_append (fields more : List (Bytes × Bytes)) :
    valuesOf name (fields ++ more) = valuesOf name fields ++ valuesOf name more := by
  simp [valuesOf]

theorem shown_cons (field : Bytes × Bytes) (fields : List (Bytes × Bytes)) :
    shown (field :: fields) =
      if EndsSection field.1 then []
      else (shownName field.1, trimOws field.2) :: shown fields := by
  rw [shown]
  split
  · rename_i ends
    rw [List.takeWhile_cons_of_neg (by simpa using ends)]
    rfl
  · rename_i goesOn
    rw [List.takeWhile_cons_of_pos (by simpa using goesOn)]
    rfl

theorem shown_append (fields more : List (Bytes × Bytes)) :
    shown (fields ++ more) = shown fields ++ if Whole fields then shown more else [] := by
  induction fields with
  | nil => simp [shown, Whole]
  | cons field fields ih =>
      rw [List.cons_append, shown_cons, shown_cons, ih]
      by_cases ends : EndsSection field.1
      · simp [Whole, ends]
      · have whole : Whole (field :: fields) ↔ Whole fields := by simp [Whole, ends]
        simp only [if_neg ends, whole, List.cons_append]

theorem shown_line (clean : linesOf key = [key]) (value : Bytes) :
    shown [(key, value)] = [(key, trimOws value)] := by
  simp [EndsSection, shownName, clean, shown]

theorem whole_without (clean : linesOf key = [key]) : Whole (without key fields) ↔ Whole fields := by
  constructor
  · intro whole field member
    by_cases same : field.1 = key
    · simp [EndsSection, same, clean]
    · exact whole field (mem_without.mpr ⟨member, same⟩)
  · exact fun whole field member => whole field (mem_without.mp member).1

theorem valuesOf_without (clean : linesOf key = [key]) (other : key.map tolower ≠ name) :
    valuesOf name (shown (without key fields)) = valuesOf name (shown fields) := by
  induction fields with
  | nil => rfl
  | cons field fields ih =>
      by_cases same : field.1 = key
      · have dropped : without key (field :: fields) = without key fields := by
          simp [without, same]
        have goesOn : ¬ EndsSection field.1 := by simp [EndsSection, same, clean]
        have isKey : shownName field.1 = key := by simp [shownName, same, clean]
        rw [dropped, ih, shown_cons, if_neg goesOn, valuesOf_cons, isKey, if_neg other]
      · have kept : without key (field :: fields) = field :: without key fields := by
          simp [without, same]
        rw [kept, shown_cons, shown_cons]
        split
        · rfl
        · rw [valuesOf_cons, valuesOf_cons, ih]

end Values

section Edited

variable {name host : Bytes} {fields : List (Bytes × Bytes)}

def endToEnd (fields : List (Bytes × Bytes)) : List (Bytes × Bytes) :=
  without (ascii "Proxy-Connection") (without (ascii "Connection") fields)

theorem hopFields_eq (fields : List (Bytes × Bytes)) :
    hopFields fields = endToEnd fields ++ [(ascii "Connection", ascii "close")] := by
  rw [hopFields, assign, without_append]
  rfl

theorem whole_endToEnd : Whole (endToEnd fields) ↔ Whole fields := by
  rw [endToEnd, whole_without (by decide), whole_without (by decide)]

theorem valuesOf_endToEnd (other : (ascii "Connection").map tolower ≠ name)
    (other' : (ascii "Proxy-Connection").map tolower ≠ name) :
    valuesOf name (shown (endToEnd fields)) = valuesOf name (shown fields) := by
  rw [endToEnd, valuesOf_without (by decide) other', valuesOf_without (by decide) other]

theorem hostKept_hopFields : HostKept (hopFields fields) ↔ HostKept fields := by
  constructor
  · rintro ⟨field, member, isHost, outside⟩
    rw [hopFields_eq, List.mem_append, List.mem_singleton] at member
    rcases member with member | rfl
    · exact ⟨field, (mem_without.mp (mem_without.mp member).1).1, isHost, outside⟩
    · exact absurd isHost (by decide)
  · rintro ⟨field, member, isHost, outside⟩
    refine ⟨field, ?_, isHost, outside⟩
    rw [hopFields_eq]
    refine List.mem_append_left _ (mem_without.mpr ⟨mem_without.mpr ⟨member, ?_⟩, ?_⟩) <;>
    · rw [isHost]
      decide

theorem shown_editedFields (host : Bytes) (fields : List (Bytes × Bytes)) :
    shown (editedFields host fields) =
      if HostKept fields then
        shown (endToEnd fields) ++ if Whole fields then [(ascii "Connection", ascii "close")] else []
      else
        shown (without (ascii "Host") (endToEnd fields)) ++
          if Whole fields then
            [(ascii "Connection", ascii "close"), (ascii "Host", trimOws host)] else [] := by
  have connection : shown [(ascii "Connection", ascii "close")] =
      [(ascii "Connection", ascii "close")] := by decide
  by_cases kept : HostKept fields
  · rw [editedFields, if_pos (hostKept_hopFields.mpr kept), if_pos kept, hopFields_eq, shown_append,
      connection]
    simp only [whole_endToEnd]
  · have close : without (ascii "Host") [(ascii "Connection", ascii "close")] =
        [(ascii "Connection", ascii "close")] := by decide
    have set : shown [(ascii "Connection", ascii "close"), (ascii "Host", host)] =
        [(ascii "Connection", ascii "close"), (ascii "Host", trimOws host)] := by
      rw [shown_cons, if_neg (by decide), shown_line (by decide)]
      rfl
    have whole : Whole (without (ascii "Host") (endToEnd fields)) ↔ Whole fields := by
      rw [whole_without (by decide), whole_endToEnd]
    rw [editedFields, if_neg (hostKept_hopFields.not.mpr kept), if_neg kept, hopFields_eq, assign,
      without_append, close, List.append_assoc, List.singleton_append, shown_append, set]
    simp only [whole]

theorem Ready.received {pr : ParsedRequest} {name path version line text : Bytes}
    (ready : Ready pr name path version) (isLine : line = getLine path version)
    (isText : text = line ++ headerText (editedFields name pr.fields)) :
    receivedFields text = shown (editedFields name pr.fields) ∧ receivedFields line = [] := by
  have split : getLine path version =
      (ascii "GET " ++ (path ++ (ascii " " ++ version))) ++ crlf := by
    simp only [getLine, List.append_assoc]
  constructor
  · rw [isText, isLine, split, List.append_assoc]
    exact receivedFields_eq ready.cleanLine ready.printable_edited
  · rw [isLine, split]
    exact receivedFields_line ready.cleanLine

end Edited

end ProxyServer.ProxyParse
