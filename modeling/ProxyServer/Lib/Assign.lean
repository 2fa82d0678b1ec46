import Mathlib.Data.List.Basic
import Mathlib.Data.List.Nodup
import Mathlib.Data.List.Pairwise
import ProxyServer.Lib.Override

namespace ProxyServer.Lib

variable {κ ν : Type*}

def keys (table : List (κ × ν)) : List κ := table.map (·.1)

@[simp] theorem keys_nil : keys ([] : List (κ × ν)) = [] := rfl

@[simp] theorem keys_cons (pair : κ × ν) (table : List (κ × ν)) :
    keys (pair :: table) = pair.1 :: keys table := rfl

@[simp] theorem keys_append (table more : List (κ × ν)) :
    keys (table ++ more) = keys table ++ keys more :=
  List.map_append

variable [DecidableEq κ]

def without (key : κ) (table : List (κ × ν)) : List (κ × ν) := table.filter (·.1 ≠ key)

def assign (table : List (κ × ν)) (pair : κ × ν) : List (κ × ν) := without pair.1 table ++ [pair]

def latest (pairs : List (κ × ν)) : List (κ × ν) := pairs.pwFilter fun x y => x.1 ≠ y.1

@[simp] theorem without_nil (key : κ) : without key ([] : List (κ × ν)) = [] := rfl

theorem mem_without {key : κ} {table : List (κ × ν)} {pair : κ × ν} :
    pair ∈ without key table ↔ pair ∈ table ∧ pair.1 ≠ key := by
  simp [without]

theorem without_of_notMem {key : κ} {table : List (κ × ν)} (absent : key ∉ keys table) :
    without key table = table := by
  rw [without, List.filter_eq_self]
  intro pair member
  simp only [decide_eq_true_eq]
  exact fun same => absent (same ▸ List.mem_map_of_mem member)

theorem without_append (key : κ) (table more : List (κ × ν)) :
    without key (table ++ more) = without key table ++ without key more :=
  List.filter_append _ _

theorem mem_keys_without {key other : κ} {table : List (κ × ν)} :
    other ∈ keys (without key table) ↔ other ∈ keys table ∧ other ≠ key := by
  simp only [keys, List.mem_map, mem_without]
  constructor
  · rintro ⟨pair, ⟨member, different⟩, rfl⟩
    exact ⟨⟨pair, member, rfl⟩, different⟩
  · rintro ⟨⟨pair, member, rfl⟩, different⟩
    exact ⟨pair, ⟨member, different⟩, rfl⟩

theorem nodup_without {key : κ} {table : List (κ × ν)} (distinct : (keys table).Nodup) :
    (keys (without key table)).Nodup :=
  distinct.sublist (List.filter_sublist.map _)

theorem nodup_assign {table : List (κ × ν)} (distinct : (keys table).Nodup) (pair : κ × ν) :
    (keys (assign table pair)).Nodup := by
  rw [assign, keys_append, List.nodup_append]
  refine ⟨nodup_without distinct, List.nodup_singleton _, ?_⟩
  intro key member other isPair same
  have isKey : other = pair.1 := by simpa using isPair
  exact (mem_keys_without.mp member).2 (same.trans isKey)

theorem forall_mem_assign {P : κ × ν → Prop} {table : List (κ × ν)} {pair : κ × ν}
    (all : ∀ other ∈ table, P other) (here : P pair) : ∀ other ∈ assign table pair, P other := by
  intro other member
  rw [assign, List.mem_append, List.mem_singleton] at member
  rcases member with member | rfl
  · exact all other (mem_without.mp member).1
  · exact here

theorem without_cut {before after : List (κ × ν)} {pair : κ × ν}
    (distinct : (keys (before ++ pair :: after)).Nodup) :
    without pair.1 (before ++ pair :: after) = before ++ after := by
  simp only [keys_append, keys_cons] at distinct
  have apart := List.nodup_middle.mp distinct
  have absent := (List.nodup_cons.mp apart).1
  rw [← keys_append] at absent
  calc without pair.1 (before ++ pair :: after)
      = without pair.1 before ++ without pair.1 after := by simp [without]
    _ = without pair.1 (before ++ after) := (without_append _ _ _).symm
    _ = before ++ after := without_of_notMem absent

@[simp] theorem latest_nil : latest ([] : List (κ × ν)) = [] := rfl

theorem latest_cons (pair : κ × ν) (pairs : List (κ × ν)) :
    latest (pair :: pairs) =
      if pair.1 ∈ keys pairs then latest pairs else pair :: latest pairs := by
  have apart : (∀ other ∈ latest pairs, pair.1 ≠ other.1) ↔ pair.1 ∉ keys pairs := by
    rw [latest, List.forall_mem_pwFilter (fun {x y z} different => by
      by_contra! both
      exact different (both.1.trans both.2)), keys, List.mem_map]
    simp only [not_exists, not_and, ne_eq, eq_comm]
  by_cases later : pair.1 ∈ keys pairs
  · rw [if_pos later]
    exact List.pwFilter_cons_of_neg fun different => apart.mp different later
  · rw [if_neg later]
    exact List.pwFilter_cons_of_pos (apart.mpr later)

theorem latest_cons_of_mem {pair : κ × ν} {pairs : List (κ × ν)} (later : pair.1 ∈ keys pairs) :
    latest (pair :: pairs) = latest pairs := by
  rw [latest_cons, if_pos later]

theorem latest_cons_of_notMem {pair : κ × ν} {pairs : List (κ × ν)}
    (last : pair.1 ∉ keys pairs) : latest (pair :: pairs) = pair :: latest pairs := by
  rw [latest_cons, if_neg last]

theorem mem_keys_latest {key : κ} {pairs : List (κ × ν)} :
    key ∈ keys (latest pairs) ↔ key ∈ keys pairs := by
  induction pairs with
  | nil => simp
  | cons pair pairs ih =>
      by_cases later : pair.1 ∈ keys pairs
      · rw [latest_cons_of_mem later, ih, keys_cons, List.mem_cons]
        exact ⟨.inr, fun either => either.elim (fun same => same ▸ later) id⟩
      · rw [latest_cons_of_notMem later, keys_cons, keys_cons, List.mem_cons, List.mem_cons, ih]

theorem nodup_latest (pairs : List (κ × ν)) : (keys (latest pairs)).Nodup := by
  induction pairs with
  | nil => simp
  | cons pair pairs ih =>
      by_cases later : pair.1 ∈ keys pairs
      · rwa [latest_cons_of_mem later]
      · rw [latest_cons_of_notMem later, keys_cons, List.nodup_cons, mem_keys_latest]
        exact ⟨later, ih⟩

theorem latest_eq_self {pairs : List (κ × ν)} (distinct : (keys pairs).Nodup) :
    latest pairs = pairs := by
  induction pairs with
  | nil => rfl
  | cons pair pairs ih =>
      obtain ⟨last, distinct'⟩ := List.nodup_cons.mp distinct
      rw [latest_cons_of_notMem last, ih distinct']

theorem latest_append_without {key : κ} (pairs : List (κ × ν)) {more : List (κ × ν)}
    (later : key ∈ keys more) : latest (without key pairs ++ more) = latest (pairs ++ more) := by
  induction pairs with
  | nil => rfl
  | cons pair pairs ih =>
      by_cases same : pair.1 = key
      · have dropped : without key (pair :: pairs) = without key pairs := by simp [without, same]
        rw [dropped, ih, List.cons_append, latest_cons_of_mem (by simp [same, later])]
      · have kept : without key (pair :: pairs) = pair :: without key pairs := by
          simp [without, same]
        have alike : pair.1 ∈ keys (without key pairs ++ more) ↔ pair.1 ∈ keys (pairs ++ more) := by
          rw [keys_append, keys_append, List.mem_append, List.mem_append, mem_keys_without]
          simp [same]
        rw [kept, List.cons_append, List.cons_append, latest_cons, latest_cons, ih]
        simp only [alike]

theorem latest_append_of_subset {pairs more : List (κ × ν)} (later : keys pairs ⊆ keys more) :
    latest (pairs ++ more) = latest more := by
  induction pairs with
  | nil => rfl
  | cons pair pairs ih =>
      obtain ⟨here, rest⟩ := List.cons_subset.mp later
      rw [List.cons_append, latest_cons_of_mem (by simp [here]), ih rest]

theorem foldl_assign {table : List (κ × ν)} (distinct : (keys table).Nodup)
    (pairs : List (κ × ν)) : pairs.foldl assign table = latest (table ++ pairs) := by
  induction pairs generalizing table with
  | nil => rw [List.foldl_nil, List.append_nil, latest_eq_self distinct]
  | cons pair pairs ih =>
      rw [List.foldl_cons, ih (nodup_assign distinct pair), assign, List.append_assoc,
        List.singleton_append, latest_append_without _ (by simp)]

theorem foldl_assign_nil (pairs : List (κ × ν)) : pairs.foldl assign [] = latest pairs := by
  rw [foldl_assign (by simp), List.nil_append]

theorem latest_sublist (pairs : List (κ × ν)) : (latest pairs).Sublist pairs :=
  List.pwFilter_sublist _

theorem mem_of_mem_latest {pair : κ × ν} {pairs : List (κ × ν)} (member : pair ∈ latest pairs) :
    pair ∈ pairs :=
  (latest_sublist pairs).subset member

theorem latest_cons_eq_iff {pair pair' : κ × ν} {pairs pairs' : List (κ × ν)}
    (sameKey : pair.1 = pair'.1) (sameKeys : keys pairs = keys pairs') :
    latest (pair :: pairs) = latest (pair' :: pairs') ↔
      (pair.1 ∉ keys pairs → pair = pair') ∧ latest pairs = latest pairs' := by
  by_cases later : pair.1 ∈ keys pairs
  · have later' : pair'.1 ∈ keys pairs' := by rwa [← sameKey, ← sameKeys]
    rw [latest_cons_of_mem later, latest_cons_of_mem later']
    simp [later]
  · have last' : pair'.1 ∉ keys pairs' := by rwa [← sameKey, ← sameKeys]
    rw [latest_cons_of_notMem later, latest_cons_of_notMem last', List.cons.injEq]
    simp [later]

theorem latest_concat (pairs : List (κ × ν)) (pair : κ × ν) :
    latest (pairs ++ [pair]) = assign (latest pairs) pair := by
  rw [← foldl_assign_nil, List.foldl_append, foldl_assign_nil, List.foldl_cons, List.foldl_nil]

theorem lastMention_eq_none {key : κ} {pairs : List (κ × ν)} :
    lastMention key pairs = none ↔ key ∉ keys pairs := by
  induction pairs with
  | nil => simp [lastMention]
  | cons pair pairs ih =>
      rw [lastMention, Option.or_eq_none_iff, ih, keys_cons, List.mem_cons, not_or, and_comm]
      simp [eq_comm]

theorem mem_latest {key : κ} {value : ν} {pairs : List (κ × ν)} :
    (key, value) ∈ latest pairs ↔ lastMention key pairs = some value := by
  induction pairs with
  | nil => simp [lastMention]
  | cons pair pairs ih =>
      rw [lastMention]
      by_cases later : pair.1 ∈ keys pairs
      · rw [latest_cons_of_mem later, ih]
        cases last : lastMention key pairs with
        | some other => rw [Option.some_or]
        | none =>
            have different : pair.1 ≠ key := by
              rintro rfl
              exact lastMention_eq_none.mp last later
            rw [if_neg different, Option.or_none]
      · rw [latest_cons_of_notMem later, List.mem_cons, ih]
        by_cases same : pair.1 = key
        · subst same
          rw [lastMention_eq_none.mpr later, if_pos rfl]
          simp [Prod.ext_iff, eq_comm]
        · have different : (key, value) ≠ pair := by
            rintro rfl
            exact same rfl
          simp [same, different]

def valued (pairs : List (κ × Option ν)) : List (κ × ν) :=
  pairs.filterMap fun pair => pair.2.map (pair.1, ·)

omit [DecidableEq κ] in
theorem mem_valued {key : κ} {value : ν} {pairs : List (κ × Option ν)} :
    (key, value) ∈ valued pairs ↔ (key, some value) ∈ pairs := by
  simp [valued]

theorem valued_without (key : κ) (pairs : List (κ × Option ν)) :
    valued (without key pairs) = without key (valued pairs) := by
  rw [valued, without, valued, without, List.filterMap_filter, List.filter_filterMap]
  refine List.filterMap_congr fun pair _ => ?_
  obtain ⟨other, value⟩ := pair
  cases value <;> by_cases same : other = key <;> simp [same, Option.filter]

theorem valued_assign_some (pairs : List (κ × Option ν)) (key : κ) (value : ν) :
    valued (assign pairs (key, some value)) = assign (valued pairs) (key, value) := by
  rw [assign, assign, ← valued_without]
  exact List.filterMap_append

theorem valued_assign_none (pairs : List (κ × Option ν)) (key : κ) :
    valued (assign pairs (key, none)) = without key (valued pairs) := by
  rw [assign, ← valued_without]
  exact List.filterMap_append.trans (List.append_nil _)

end ProxyServer.Lib
