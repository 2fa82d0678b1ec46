import Mathlib.Data.List.Basic

namespace ProxyServer.Lib

universe u v w

/-- The fields `κ` of a state `σ`, and what a text `ρ` reads as for each of them. -/
structure Fields (κ : Type u) (σ : Type v) (ρ : Type w) (β : κ → Type v) where
  get : (k : κ) → σ → β k
  read : (k : κ) → ρ → β k
  put : κ → ρ → σ → σ
  get_put : ∀ k r s, get k (put k r s) = read k r
  get_put_of_ne : ∀ k j r s, k ≠ j → get k (put j r s) = get k s

variable {κ : Type u} {σ : Type v} {ρ : Type w} {β : κ → Type v}

def lastMention [DecidableEq κ] (k : κ) : List (κ × ρ) → Option ρ
  | [] => none
  | mention :: mentions =>
      (lastMention k mentions).or (if mention.1 = k then some mention.2 else none)

theorem lastMention_append [DecidableEq κ] (k : κ) (mentions more : List (κ × ρ)) :
    lastMention k (mentions ++ more) = (lastMention k more).or (lastMention k mentions) := by
  induction mentions with
  | nil => simp [lastMention]
  | cons mention mentions ih => rw [List.cons_append, lastMention, lastMention, ih, Option.or_assoc]

theorem lookup_named {ν : Type*} [BEq ν] [LawfulBEq ν] {f : κ → ν} {table : List (ν × κ)}
    (named : ∀ entry ∈ table, entry.1 = f entry.2) (distinct : (table.map Prod.fst).Nodup)
    {key : ν} {k : κ} :
    table.lookup key = some k ↔ k ∈ table.map Prod.snd ∧ f k = key := by
  induction table with
  | nil => simp
  | cons entry table ih =>
      obtain ⟨here, later⟩ := List.forall_mem_cons.mp named
      obtain ⟨fresh, distinct'⟩ := List.nodup_cons.mp distinct
      rw [List.lookup_cons, List.map_cons, List.mem_cons]
      by_cases same : key = entry.1
      · simp only [same, beq_self_eq_true, Option.some.injEq]
        constructor
        · rintro rfl
          exact ⟨.inl rfl, here.symm⟩
        · rintro ⟨rfl | found, sameName⟩
          · rfl
          · obtain ⟨other, member, rfl⟩ := List.mem_map.mp found
            refine absurd (List.mem_map.mpr ⟨other, member, ?_⟩) fresh
            rw [later other member, sameName]
      · rw [beq_false_of_ne same, ih later distinct']
        refine and_congr_left fun sameName => ⟨.inr, fun found => found.resolve_left ?_⟩
        rintro rfl
        exact same (sameName.symm.trans here.symm)

theorem filterMap_named {ν : Type*} [DecidableEq ν] {table : List (ν × κ)}
    (distinct : (table.map Prod.fst).Nodup) {entry : ν × κ} (inside : entry ∈ table) (r : ρ) :
    (table.filterMap fun other => (if other.1 = entry.1 then some r else none).map (other.2, ·)) =
      [(entry.2, r)] := by
  induction table with
  | nil => simp at inside
  | cons first table ih =>
      obtain ⟨fresh, distinct'⟩ := List.nodup_cons.mp distinct
      rcases List.mem_cons.mp inside with rfl | inside
      · have others : ∀ other ∈ table, other.1 ≠ entry.1 := fun other member same =>
          fresh (List.mem_map.mpr ⟨other, member, same⟩)
        rw [List.filterMap_cons_some (b := (entry.2, r)) (by simp), List.filterMap_eq_nil_iff.mpr]
        intro other member
        simp [others other member]
      · have apart : first.1 ≠ entry.1 := fun same =>
          fresh (List.mem_map.mpr ⟨entry, inside, same.symm⟩)
        rw [List.filterMap_cons_none (by simp [apart]), ih distinct' inside]

section Last
variable [DecidableEq κ]

theorem lastMention_filterMap {α : Type*} (k : κ) (mention : α → Option (κ × ρ)) (as : List α) :
    lastMention k (as.filterMap mention) =
      as.reverse.findSome? fun a => (mention a).bind fun m => if m.1 = k then some m.2 else none := by
  induction as with
  | nil => rfl
  | cons a as ih =>
      rw [List.reverse_cons, List.findSome?_append, ← ih]
      cases found : mention a with
      | none => simp [List.filterMap_cons_none found, found]
      | some m => simp [List.filterMap_cons_some found, lastMention, found]

theorem lastMention_named {ν : Type*} {f : κ → ν} {table : List (ν × κ)}
    (named : ∀ entry ∈ table, entry.1 = f entry.2) (distinct : (table.map Prod.snd).Nodup)
    (value : ν → Option ρ) (k : κ) :
    lastMention k (table.filterMap fun entry => (value entry.1).map (entry.2, ·)) =
      if k ∈ table.map Prod.snd then value (f k) else none := by
  induction table with
  | nil => rfl
  | cons entry table ih =>
      obtain ⟨here, later⟩ := List.forall_mem_cons.mp named
      obtain ⟨fresh, distinct'⟩ := List.nodup_cons.mp distinct
      have rest := ih later distinct'
      by_cases same : k = entry.2
      · subst same
        rw [if_neg fresh] at rest
        simp only [List.map_cons, List.mem_cons, true_or, if_true, ← here]
        cases found : value entry.1 with
        | none => rw [List.filterMap_cons_none (by simp [found]), rest]
        | some r => rw [List.filterMap_cons_some (by simp [found]; rfl), lastMention, rest]; simp
      · simp only [List.map_cons, List.mem_cons, same, false_or]
        rw [← rest]
        cases found : value entry.1 with
        | none => rw [List.filterMap_cons_none (by simp [found])]
        | some r =>
            rw [List.filterMap_cons_some (by simp [found]; rfl), lastMention,
              if_neg (Ne.symm same), Option.or_none]

end Last

namespace Fields

variable (F : Fields κ σ ρ β)

def run (mentions : List (κ × ρ)) (s : σ) : σ :=
  mentions.foldl (fun s mention => F.put mention.1 mention.2 s) s

theorem run_append (mentions more : List (κ × ρ)) (s : σ) :
    F.run (mentions ++ more) s = F.run more (F.run mentions s) :=
  List.foldl_append

theorem get_run [DecidableEq κ] (k : κ) (mentions : List (κ × ρ)) (s : σ) :
    F.get k (F.run mentions s) = (lastMention k mentions).elim (F.get k s) (F.read k) := by
  induction mentions generalizing s with
  | nil => rfl
  | cons mention mentions ih =>
      rw [run, List.foldl_cons, ← run, ih, lastMention]
      cases lastMention k mentions with
      | some r => rfl
      | none =>
          by_cases same : mention.1 = k
          · subst same
            simp [F.get_put]
          · simp [same, F.get_put_of_ne k mention.1 mention.2 s (Ne.symm same)]

theorem get_run_followed [DecidableEq κ] (k : κ) (after : List (κ × ρ)) (s t : σ) :
    F.get k (F.run after s) = F.get k (F.run after t) ↔
      (lastMention k after).isSome = true ∨ F.get k s = F.get k t := by
  rw [get_run, get_run]
  cases lastMention k after with
  | some r => simp
  | none => simp

theorem get_run_replaced [DecidableEq κ] (k : κ) (mentions : List (κ × ρ)) (old : Option (κ × ρ))
    (s : σ) :
    F.get k (F.run mentions s) = F.get k (F.run old.toList s) ↔
      (∀ r, lastMention k mentions = some r → F.read k r = F.get k (F.run old.toList s)) ∧
        ∀ r, old = some (k, r) →
          (lastMention k mentions).isSome = true ∨ F.read k r = F.get k s := by
  rw [F.get_run k mentions]
  cases lastMention k mentions with
  | some r => simp
  | none =>
      simp only [Option.elim_none, reduceCtorEq, false_implies, implies_true, true_and,
        Option.isSome_none, Bool.false_eq_true, false_or]
      cases old with
      | none => simp [run]
      | some mention =>
          obtain ⟨j, r⟩ := mention
          by_cases same : j = k
          · subst same
            simp [run, F.get_put, eq_comm]
          · simp [run, same, F.get_put_of_ne k j r s (Ne.symm same)]

theorem foldl_eq_run {α : Type*} {step : σ → α → σ} {mention : α → Option (κ × ρ)}
    (steps : ∀ s a, step s a = (mention a).elim s fun m => F.put m.1 m.2 s) (as : List α) (s : σ) :
    as.foldl step s = F.run (as.filterMap mention) s := by
  induction as generalizing s with
  | nil => rfl
  | cons a as ih =>
      rw [List.foldl_cons, ih, steps]
      cases found : mention a with
      | none => rw [List.filterMap_cons_none found]; rfl
      | some m => rw [List.filterMap_cons_some found]; rfl

end Fields

end ProxyServer.Lib
