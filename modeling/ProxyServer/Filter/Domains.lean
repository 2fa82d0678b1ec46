import ProxyServer.Filter.Lists

namespace ProxyServer.Filter

def Within (domain name : Bytes) : Prop :=
  name.map tolower = domain.map tolower ∨ 46 :: domain.map tolower <:+ name.map tolower

namespace TrieNode

def marks : TrieNode → Bytes → Bool
  | n, [] => n.isEndOfDomain
  | node children _, c :: path => (children c).any (·.marks path)

theorem marks_create (path : Bytes) : trieCreateNode.marks path = false := by
  cases path <;> rfl

theorem marks_getD (child : Option TrieNode) (path : Bytes) :
    (child.getD trieCreateNode).marks path = child.any (·.marks path) := by
  cases child with
  | none => exact marks_create path
  | some n => rfl

theorem marks_insert (n : TrieNode) (domain path : Bytes) :
    (n.insert domain).marks path = true ↔ path = domain.map tolower ∨ n.marks path = true := by
  induction domain generalizing n path with
  | nil =>
      obtain ⟨children, isEnd⟩ := n
      cases path with
      | nil => simp [insert, marks, isEndOfDomain]
      | cons c path => simp [insert, marks]
  | cons d domain ih =>
      obtain ⟨children, isEnd⟩ := n
      cases path with
      | nil => simp [insert, marks, isEndOfDomain]
      | cons c path =>
          simp only [insert, marks, List.map_cons, List.cons.injEq]
          by_cases same : c = tolower d
          · subst same
            rw [Function.update_self, Option.any_some, ih, marks_getD]
            simp
          · rw [Function.update_of_ne same]
            simp [same]

theorem marks_trieInsert (root : TrieNode) (domain path : Bytes) :
    (trieInsert root domain).marks path = true ↔
      path = (domain.map tolower).reverse ∨ root.marks path = true := by
  rw [trieInsert, marks_insert, List.map_reverse]

theorem marks_foldl (domains : List Bytes) (root : TrieNode) (path : Bytes) :
    (domains.foldl trieInsert root).marks path = true ↔
      (∃ domain ∈ domains, path = (domain.map tolower).reverse) ∨ root.marks path = true := by
  induction domains generalizing root with
  | nil => simp
  | cons domain domains ih =>
      rw [List.foldl_cons, ih, marks_trieInsert]
      simp only [List.mem_cons, exists_eq_or_imp]
      rw [or_left_comm, or_assoc]

theorem blocks_iff (n : TrieNode) (name : Bytes) :
    n.blocks name = true ↔ ∃ front rest, name = front ++ rest ∧ front ≠ [] ∧
      n.marks (front.map tolower) = true ∧ (rest = [] ∨ rest.head? = some 46) := by
  induction name generalizing n with
  | nil => simp [blocks]
  | cons c name ih =>
      obtain ⟨children, isEnd⟩ := n
      have split (p : Bytes → Bytes → Prop) :
          (∃ front rest, c :: name = front ++ rest ∧ front ≠ [] ∧ p front rest) ↔
            p [c] name ∨ ∃ front rest, name = front ++ rest ∧ front ≠ [] ∧ p (c :: front) rest := by
        constructor
        · rintro ⟨front, rest, whole, nonempty, holds⟩
          obtain ⟨d, front, rfl⟩ := List.exists_cons_of_ne_nil nonempty
          obtain ⟨rfl, rfl⟩ := List.cons.inj whole
          cases front with
          | nil => exact .inl holds
          | cons d front => exact .inr ⟨d :: front, rest, rfl, by simp, holds⟩
        · rintro (holds | ⟨front, rest, rfl, -, holds⟩)
          · exact ⟨[c], name, rfl, by simp, holds⟩
          · exact ⟨c :: front, rest, rfl, by simp, holds⟩
      rw [split]
      simp only [List.map_cons, List.map_nil, marks, blocks]
      cases children (tolower c) with
      | none => simp
      | some next =>
          simp only [Option.any_some, Bool.if_true_left, Bool.or_eq_true, ih]
          simp

end TrieNode

variable {ρ : Type*}

def FilterState.withDomains (f : FilterState ρ) (domains : List Bytes) : FilterState ρ :=
  { f with
    filterEnabled := true
    domainTrieRoot := some (domains.foldl trieInsert trieCreateNode) }

theorem blocked_iff_within (f : FilterState ρ) {domains : List Bytes}
    (nonempty : ∀ domain ∈ domains, domain ≠ []) (name : Bytes) :
    filterIsDomainBlocked (f.withDomains domains) name = true ↔
      ∃ domain ∈ domains, Within domain name := by
  simp only [filterIsDomainBlocked, FilterState.withDomains, Bool.true_and, Option.any_some,
    TrieNode.blocks_iff, TrieNode.marks_foldl, TrieNode.marks_create, Bool.false_eq_true, or_false]
  constructor
  · rintro ⟨front, rest, reversed, -, ⟨domain, member, path⟩, stop⟩
    have whole : name = rest.reverse ++ front.reverse := by
      rw [← List.reverse_append, ← reversed, List.reverse_reverse]
    have lower : front.reverse.map tolower = domain.map tolower := by
      rw [List.map_reverse, path, List.reverse_reverse]
    refine ⟨domain, member, ?_⟩
    rcases stop with rfl | dot
    · exact .inl (by rw [whole, List.reverse_nil, List.nil_append, lower])
    · obtain ⟨rest, rfl⟩ := List.head?_eq_some_iff.mp dot
      refine .inr ⟨rest.reverse.map tolower, ?_⟩
      rw [whole, List.reverse_cons, List.map_append, List.map_append, lower, List.append_assoc]
      rfl
  · rintro ⟨domain, member, same | ⟨before, suffix⟩⟩
    · refine ⟨name.reverse, [], by simp, ?_, ⟨domain, member, ?_⟩, .inl rfl⟩
      · intro empty
        rw [List.reverse_eq_nil_iff.mp empty, List.map_nil] at same
        exact nonempty domain member (List.map_eq_nil_iff.mp same.symm)
      · rw [List.map_reverse, same]
    · obtain ⟨front, rest, rfl, -, lower⟩ := List.map_eq_append_iff.mp suffix.symm
      obtain ⟨c, rest, rfl, dot, same⟩ := List.map_eq_cons_iff.mp lower
      obtain rfl := eq_of_tolower_eq (by decide) dot
      refine ⟨rest.reverse, 46 :: front.reverse, by simp, ?_, ⟨domain, member, ?_⟩, .inr rfl⟩
      · intro empty
        rw [List.reverse_eq_nil_iff.mp empty, List.map_nil] at same
        exact nonempty domain member (List.map_eq_nil_iff.mp same.symm)
      · rw [List.map_reverse, same]

/-- The verdict goes by the set of the domains, not by their order. -/
theorem domainBlocked_iff (f : FilterState ρ) {domains : List Bytes}
    (nonempty : ∀ domain ∈ domains, domain ≠ []) (name : Bytes) :
    (filterIsDomainBlocked (f.withDomains domains) name = true ↔
        ∃ domain ∈ domains, Within domain name) ∧
      ∀ domains', (∀ domain, domain ∈ domains' ↔ domain ∈ domains) →
        filterIsDomainBlocked (f.withDomains domains') name =
          filterIsDomainBlocked (f.withDomains domains) name := by
  refine ⟨blocked_iff_within f nonempty name, fun domains' same => ?_⟩
  have nonempty' : ∀ domain ∈ domains', domain ≠ [] :=
    fun domain member => nonempty domain ((same domain).mp member)
  rw [Bool.eq_iff_iff, blocked_iff_within f nonempty, blocked_iff_within f nonempty']
  simp only [same]

theorem domainBlocked_iff_example :
    filterIsDomainBlocked ((FilterState.zeroed (ρ := Unit)).withDomains
        [ascii "ads.example.com", ascii "Example.com"]) (ascii "www.example.COM") = true ∧
      filterIsDomainBlocked ((FilterState.zeroed (ρ := Unit)).withDomains
        [ascii "Example.com", ascii "ads.example.com"]) (ascii "www.example.COM") = true := by
  have nonempty : ∀ domain ∈ [ascii "ads.example.com", ascii "Example.com"], domain ≠ [] := by
    decide
  obtain ⟨within, order⟩ := domainBlocked_iff (FilterState.zeroed (ρ := Unit)) nonempty
    (ascii "www.example.COM")
  have blocked := within.mpr ⟨ascii "Example.com", by decide, .inr (by decide)⟩
  refine ⟨blocked, ?_⟩
  rw [order [ascii "Example.com", ascii "ads.example.com"] (by simp [or_comm]), blocked]

end ProxyServer.Filter
