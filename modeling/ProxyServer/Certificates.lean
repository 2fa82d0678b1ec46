import Mathlib.Logic.Function.Basic
import ProxyServer.CString
import ProxyServer.Lib.Ownership

namespace ProxyServer
open Lib

inductive TlsHandle where
  | serverCtx
  | clientCtxOut
  | globalPkey
  | x509 (n : Nat)
  | node (n : Nat)
  | hostname (n : Nat)
  deriving DecidableEq

structure Certificate where
  number : Nat
  commonName : Bytes
  subjectAltName : Bytes
  deriving DecidableEq

/-- `san_str` has 256 bytes. -/
def generateCertForHost (number : Nat) (hostname : Bytes) : Certificate :=
  ⟨number, hostname, (ascii "DNS:" ++ hostname).take 255⟩

def defaultX509 : Certificate := generateCertForHost 0 (ascii "localhost")

structure CertCacheNode where
  hostname : Bytes
  cert : Certificate

/-- Where a thread is in `get_or_create_cert`; `holding` is between the call and
`SSL_use_certificate`. -/
inductive CertPhase where
  | idle
  | locking (hostname : Bytes)
  | walking (hostname : Bytes) (curr : List CertCacheNode)
  | holding (cert : Certificate)

structure CertCache where
  nodes : List CertCacheNode
  next : Nat
  mutex : Option Nat
  phase : Nat → CertPhase
  answers : List (Option Bytes × Certificate)
  trace : List (Touch TlsHandle)

inductive CertAction where
  | call (t : Nat) (hostname : Option Bytes)
  | lock (t : Nat)
  | turn (t : Nat) (generated : Bool)
  | use (t : Nat)

namespace CertCache

def initOpenSSL : CertCache where
  nodes := []
  next := 1
  mutex := none
  phase _ := .idle
  answers := []
  trace := [.acquire .serverCtx, .acquire .clientCtxOut, .acquire .globalPkey, .acquire (.x509 0),
    .use .globalPkey]

def answer (s : CertCache) (t : Nat) (hostname : Option Bytes) (cert : Certificate) : CertCache :=
  { s with
    phase := Function.update s.phase t (.holding cert)
    answers := s.answers ++ [(hostname, cert)] }

def insert (s : CertCache) (hostname : Bytes) : CertCache :=
  { s with
    nodes := ⟨hostname, generateCertForHost s.next hostname⟩ :: s.nodes
    next := s.next + 1
    trace := s.trace ++ [.acquire (.x509 s.next), .use .globalPkey, .acquire (.node s.next),
      .acquire (.hostname s.next)] }

def unlock (s : CertCache) : CertCache := { s with mutex := none }

def touch (s : CertCache) (touches : List (Touch TlsHandle)) : CertCache :=
  { s with trace := s.trace ++ touches }

def step (s : CertCache) : CertAction → Option CertCache
  | .call t hostname =>
      match s.phase t with
      | .idle =>
          if hostname.getD [] = [] then some (s.answer t hostname defaultX509)
          else some { s with phase := Function.update s.phase t (.locking (hostname.getD [])) }
      | _ => none
  | .lock t =>
      match s.phase t with
      | .locking hostname =>
          if s.mutex = none then
            some { s with
              mutex := some t
              phase := Function.update s.phase t (.walking hostname s.nodes) }
          else none
      | _ => none
  | .turn t generated =>
      match s.phase t with
      | .walking hostname (curr :: rest) =>
          let s := s.touch [.use (.node curr.cert.number), .use (.hostname curr.cert.number)]
          if curr.hostname = hostname then some (s.answer t (some hostname) curr.cert).unlock
          else some { s with phase := Function.update s.phase t (.walking hostname rest) }
      | .walking hostname [] =>
          if generated then
            some ((s.insert hostname).answer t (some hostname)
              (generateCertForHost s.next hostname)).unlock
          else some (s.answer t (some hostname) defaultX509).unlock
      | _ => none
  | .use t =>
      match s.phase t with
      | .holding cert =>
          some { s.touch [.use (.x509 cert.number)] with
            phase := Function.update s.phase t .idle }
      | _ => none

/-! ## What the list says -/

def Known (nodes : List CertCacheNode) (answer : Option Bytes × Certificate) : Prop :=
  answer.2 = defaultX509 ∨ ∃ node ∈ nodes, answer = (some node.hostname, node.cert)

def Settles (first second : Option Bytes × Certificate) : Prop :=
  first.2 ≠ defaultX509 → (second.1 = first.1 → second.2 = first.2) ∧
    (second.2 = first.2 → second.1 = first.1)

def Meets (s : CertCache) (t : Nat) : CertPhase → Prop
  | .idle => True
  | .locking hostname => hostname ≠ []
  | .walking hostname curr => hostname ≠ [] ∧ s.mutex = some t ∧
      ∃ front, s.nodes = front ++ curr ∧ ∀ node ∈ front, node.hostname ≠ hostname
  | .holding cert => cert = defaultX509 ∨ ∃ node ∈ s.nodes, node.cert = cert

structure Sound (s : CertCache) : Prop where
  positive : 0 < s.next
  hosts : (s.nodes.map (·.hostname)).Nodup
  below : ∀ node ∈ s.nodes, 0 < node.cert.number ∧ node.cert.number < s.next
  made : ∀ node ∈ s.nodes, node.hostname ≠ [] ∧
    node.cert = generateCertForHost node.cert.number node.hostname
  distinct : (s.nodes.map (·.cert.number)).Nodup
  phases : ∀ t, s.Meets t (s.phase t)
  known : ∀ answer ∈ s.answers, Known s.nodes answer
  settled : s.answers.Pairwise Settles

theorem sound_init : initOpenSSL.Sound where
  positive := Nat.one_pos
  hosts := List.nodup_nil
  below := by simp [initOpenSSL]
  made := by simp [initOpenSSL]
  distinct := List.nodup_nil
  phases _ := trivial
  known := by simp [initOpenSSL]
  settled := List.Pairwise.nil

variable {s s' : CertCache} {t : Nat}

theorem phases_update (phases : ∀ u, s.Meets u (s.phase u)) (nodes : s'.nodes = s.nodes)
    (mutex : ∀ u, s.mutex = some u → u ≠ t → s'.mutex = some u) {p : CertPhase}
    (phase : s'.phase = Function.update s.phase t p) (meets : s'.Meets t p) :
    ∀ u, s'.Meets u (s'.phase u) := by
  intro u
  rw [phase]
  by_cases same : u = t
  · subst same
    rwa [Function.update_self]
  · rw [Function.update_of_ne same]
    have before := phases u
    cases at_ : s.phase u with
    | idle => trivial
    | locking hostname => rwa [at_] at before
    | walking hostname curr =>
        rw [at_] at before
        obtain ⟨nonempty, holds, front⟩ := before
        exact ⟨nonempty, mutex u holds same, by rwa [nodes]⟩
    | holding cert =>
        rw [at_] at before
        simpa [Meets, nodes] using before

theorem Sound.keep (sound : s.Sound) (nodes : s'.nodes = s.nodes) (next : s'.next = s.next)
    (phases : ∀ u, s'.Meets u (s'.phase u)) (answers : s'.answers = s.answers) : s'.Sound := by
  obtain ⟨positive, hosts, below, made, distinct, -, known, settled⟩ := sound
  exact ⟨by rwa [next], by rwa [nodes], by rwa [nodes, next], by rwa [nodes], by rwa [nodes],
    phases, by rwa [nodes, answers], by rwa [answers]⟩

theorem settles_of_known {nodes : List CertCacheNode} (hosts : (nodes.map (·.hostname)).Nodup)
    (distinct : (nodes.map (·.cert.number)).Nodup) {first second : Option Bytes × Certificate}
    (known : Known nodes first) (known' : Known nodes second)
    (absent : second.2 = defaultX509 → ∀ node ∈ nodes, second.1 ≠ some node.hostname) :
    Settles first second := by
  intro given
  obtain ⟨node, member, rfl⟩ := known.resolve_left given
  rcases known' with isDefault | ⟨node', member', rfl⟩
  · refine ⟨fun same => absurd same (absent isDefault node member), fun same => ?_⟩
    exact absurd (same.symm.trans isDefault) given
  · refine ⟨fun same => ?_, fun same => ?_⟩
    · have equal := List.inj_on_of_nodup_map hosts member' member (Option.some.inj same)
      rw [equal]
    · have equal := List.inj_on_of_nodup_map distinct member' member
        (congrArg Certificate.number same)
      rw [equal]

theorem Sound.answered (sound : s.Sound) (nodes : s'.nodes = s.nodes) (next : s'.next = s.next)
    (mutex : ∀ u, s.mutex = some u → u ≠ t → s'.mutex = some u) {hostname : Option Bytes}
    {cert : Certificate} (phase : s'.phase = Function.update s.phase t (.holding cert))
    (answers : s'.answers = s.answers ++ [(hostname, cert)])
    (known : Known s.nodes (hostname, cert))
    (absent : cert = defaultX509 → ∀ node ∈ s.nodes, hostname ≠ some node.hostname) :
    s'.Sound := by
  have held : s'.Meets t (.holding cert) := by
    rw [Meets, nodes]
    refine known.imp_right ?_
    rintro ⟨node, member, same⟩
    exact ⟨node, member, (congrArg Prod.snd same).symm⟩
  refine ⟨next ▸ sound.positive, nodes ▸ sound.hosts, by rw [nodes, next]; exact sound.below,
    nodes ▸ sound.made, nodes ▸ sound.distinct,
    phases_update sound.phases nodes mutex phase held, ?_, ?_⟩
  · rw [answers, nodes]
    intro answer member
    rcases List.mem_append.mp member with old | new
    · exact sound.known answer old
    · rwa [List.mem_singleton.mp new]
  · rw [answers, List.pairwise_append]
    refine ⟨sound.settled, List.pairwise_singleton _ _, fun first old second new => ?_⟩
    rw [List.mem_singleton.mp new]
    exact settles_of_known sound.hosts sound.distinct (sound.known first old) known absent

theorem Known.mono {nodes : List CertCacheNode} {answer : Option Bytes × Certificate}
    (known : Known nodes answer) (node : CertCacheNode) : Known (node :: nodes) answer := by
  refine known.imp_right ?_
  rintro ⟨node', member, same⟩
  exact ⟨node', List.mem_cons_of_mem _ member, same⟩

theorem generated_ne_default {n : Nat} (positive : 0 < n) (hostname : Bytes) :
    generateCertForHost n hostname ≠ defaultX509 := fun same =>
  absurd (congrArg Certificate.number same) (Nat.ne_of_gt positive)

theorem Sound.insert (sound : s.Sound) {hostname : Bytes} (holds : s.mutex = some t)
    (idle : s.phase t = .idle) (nonempty : hostname ≠ [])
    (absent : ∀ node ∈ s.nodes, node.hostname ≠ hostname) : (s.insert hostname).Sound := by
  obtain ⟨positive, hosts, below, made, distinct, phases, known, settled⟩ := sound
  refine ⟨Nat.succ_pos _, ?_, ?_, ?_, ?_, fun u => ?_, fun answer member =>
    (known answer member).mono _, settled⟩
  · refine List.nodup_cons.mpr ⟨fun listed => ?_, hosts⟩
    obtain ⟨node, member, same⟩ := List.mem_map.mp listed
    exact absent node member same
  · intro node member
    rcases List.mem_cons.mp member with rfl | old
    · exact ⟨positive, Nat.lt_succ_self _⟩
    · exact ⟨(below node old).1, Nat.lt_succ_of_lt (below node old).2⟩
  · intro node member
    rcases List.mem_cons.mp member with rfl | old
    · exact ⟨nonempty, rfl⟩
    · exact made node old
  · refine List.nodup_cons.mpr ⟨fun listed => ?_, distinct⟩
    obtain ⟨node, member, same⟩ := List.mem_map.mp listed
    exact Nat.ne_of_lt (below node member).2 same
  · have before := phases u
    change s.Meets u (s.phase u) at before
    change Meets _ u (s.phase u)
    cases at_ : s.phase u with
    | idle => trivial
    | locking other => rwa [at_] at before
    | walking other curr =>
        rw [at_] at before
        obtain rfl : t = u := Option.some.inj (holds.symm.trans before.2.1)
        rw [idle] at at_
        cases at_
    | holding cert =>
        rw [at_] at before
        refine before.imp_right ?_
        rintro ⟨node, member, same⟩
        exact ⟨node, List.mem_cons_of_mem _ member, same⟩

theorem step_sound (s : CertCache) (action : CertAction) (s' : CertCache) (sound : s.Sound)
    (taken : s.step action = some s') : s'.Sound := by
  cases action with
  | call t hostname =>
      simp only [step] at taken
      split at taken
      · split at taken
        · rename_i blank
          cases taken
          refine sound.answered rfl rfl (fun _ holds _ => holds) rfl rfl (.inl rfl) ?_
          rintro - node member rfl
          exact (sound.made node member).1 blank
        · rename_i nonempty
          cases taken
          exact sound.keep rfl rfl
            (phases_update sound.phases rfl (fun _ holds _ => holds) rfl nonempty) rfl
      · cases taken
  | lock t =>
      simp only [step] at taken
      split at taken
      · rename_i hostname at_
        split at taken
        · rename_i free
          cases taken
          have nonempty := sound.phases t
          rw [at_] at nonempty
          refine sound.keep rfl rfl (phases_update sound.phases rfl ?_ rfl ?_) rfl
          · intro u holds
            simp [free] at holds
          · exact ⟨nonempty, rfl, [], rfl, by simp⟩
        · cases taken
      · cases taken
  | turn t generated =>
      simp only [step] at taken
      split at taken
      · rename_i hostname curr rest at_
        have here := sound.phases t
        rw [at_] at here
        obtain ⟨nonempty, holds, front, isNodes, searched⟩ := here
        split at taken
        · rename_i same
          cases taken
          have member : curr ∈ s.nodes := by simp [isNodes]
          refine sound.answered rfl rfl ?_ rfl rfl
            (.inr ⟨curr, member, by rw [same]⟩) fun isDefault => ?_
          · intro u other different
            exact absurd (Option.some.inj (other.symm.trans holds)) different
          · have made := (sound.made curr member).2
            exact absurd (made.symm.trans isDefault)
              (generated_ne_default (sound.below curr member).1 _)
        · rename_i other
          cases taken
          refine sound.keep rfl rfl
            (phases_update sound.phases rfl (fun _ holds _ => holds) rfl ?_) rfl
          refine ⟨nonempty, holds, front ++ [curr], by simp [isNodes, touch], ?_⟩
          intro node member
          rcases List.mem_append.mp member with old | new
          · exact searched node old
          · rwa [List.mem_singleton.mp new]
      · rename_i hostname at_
        have here := sound.phases t
        rw [at_] at here
        obtain ⟨nonempty, holds, front, isNodes, searched⟩ := here
        rw [List.append_nil] at isNodes
        rw [← isNodes] at searched
        have mine : ∀ u, s.mutex = some u → u ≠ t → none = some u := fun u other different =>
          absurd (Option.some.inj (other.symm.trans holds)) different
        split at taken
        · cases taken
          have idle : ({ s with phase := Function.update s.phase t .idle } : CertCache).Sound :=
            sound.keep rfl rfl
              (phases_update sound.phases rfl (fun _ holds _ => holds) rfl trivial) rfl
          have inserted := idle.insert holds (Function.update_self t .idle s.phase) nonempty
            searched
          refine inserted.answered rfl rfl mine (Function.update_idem ..).symm rfl
            (.inr ⟨_, List.mem_cons_self, rfl⟩) fun isDefault => ?_
          exact absurd isDefault (generated_ne_default sound.positive _)
        · cases taken
          refine sound.answered rfl rfl mine rfl rfl (.inl rfl) fun _ node member same => ?_
          exact searched node member (Option.some.inj same).symm
      · cases taken
  | use t =>
      simp only [step] at taken
      split at taken
      · cases taken
        exact sound.keep rfl rfl
          (phases_update sound.phases rfl (fun _ holds _ => holds) rfl trivial) rfl
      · cases taken

/-- However the threads take turns, a host is given its own certificate and always the same one,
from the first time on; only the certificate of `localhost` may stand in for it before. -/
theorem certificates_settle {actions : List CertAction}
    (reached : run step initOpenSSL actions = some s) :
    (∀ answer ∈ s.answers, answer.2 = defaultX509 ∨ ∃ hostname n, hostname ≠ [] ∧
      answer = (some hostname, generateCertForHost n hostname)) ∧
    s.answers.Pairwise Settles := by
  have sound := run_invariant step step_sound sound_init reached
  refine ⟨fun answer member => (sound.known answer member).imp_right ?_, sound.settled⟩
  rintro ⟨node, listed, rfl⟩
  obtain ⟨nonempty, made⟩ := sound.made node listed
  exact ⟨node.hostname, node.cert.number, nonempty, by rw [← made]⟩

theorem certificates_settle_two : ∃ s,
    run step initOpenSSL [.call 0 (some [97]), .call 1 (some [97]), .lock 0, .turn 0 true, .lock 1,
      .turn 1 true] = some s ∧ s.answers.Pairwise Settles := by
  obtain ⟨s, reached⟩ := Option.isSome_iff_exists.mp <|
    show (run step initOpenSSL [.call 0 (some [97]), .call 1 (some [97]), .lock 0, .turn 0 true,
      .lock 1, .turn 1 true]).isSome from rfl
  exact ⟨s, reached, (certificates_settle reached).2⟩

/-! ## What the list owns -/

def globals : Finset TlsHandle := {.serverCtx, .clientCtxOut, .globalPkey, .x509 0}

def holds (node : CertCacheNode) : Finset TlsHandle :=
  {.node node.cert.number, .hostname node.cert.number, .x509 node.cert.number}

def live (s : CertCache) : Finset TlsHandle := globals ∪ held holds s.nodes

theorem mem_live {h : TlsHandle} :
    h ∈ s.live ↔ h ∈ globals ∨ ∃ node ∈ s.nodes, h ∈ holds node := by
  rw [live, Finset.mem_union, mem_held]

theorem owned_init : Owns ∅ initOpenSSL.trace initOpenSSL.live := by
  rw [Owns]
  decide

theorem owns_insert (sound : s.Sound) (hostname : Bytes) :
    Owns s.live [.acquire (.x509 s.next), .use .globalPkey, .acquire (.node s.next),
      .acquire (.hostname s.next)] (s.insert hostname).live := by
  have absent : ∀ h ∈ s.live, h ≠ .x509 s.next ∧ h ≠ .node s.next ∧ h ≠ .hostname s.next := by
    intro h inside
    rcases mem_live.mp inside with isGlobal | ⟨node, member, mine⟩
    · have positive := sound.positive
      simp only [globals, Finset.mem_insert, Finset.mem_singleton] at isGlobal
      rcases isGlobal with rfl | rfl | rfl | rfl <;> simp [Nat.ne_of_lt positive]
    · have below := (sound.below node member).2
      simp only [holds, Finset.mem_insert, Finset.mem_singleton] at mine
      rcases mine with rfl | rfl | rfl <;> simp [Nat.ne_of_lt below]
  have key : TlsHandle.globalPkey ∈ s.live := mem_live.mpr (.inl (by decide))
  have certificate : .x509 s.next ∉ s.live := fun inside => (absent _ inside).1 rfl
  have node : .node s.next ∉ s.live := fun inside => (absent _ inside).2.1 rfl
  have name : .hostname s.next ∉ s.live := fun inside => (absent _ inside).2.2 rfl
  have after : (s.insert hostname).live =
      Insert.insert (.hostname s.next) (Insert.insert (.node s.next)
        (Insert.insert (.x509 s.next) s.live)) := by
    ext h
    simp only [mem_live, insert, List.mem_cons, exists_eq_or_imp, Finset.mem_insert, holds,
      generateCertForHost, Finset.mem_singleton]
    grind
  rw [after]
  simp [Owns, run, Touch.step, key, certificate, node, name]

theorem Sound.held_live (sound : s.Sound) {cert : Certificate} (given : s.phase t = .holding cert) :
    .x509 cert.number ∈ s.live := by
  have here := sound.phases t
  rw [given] at here
  rcases here with rfl | ⟨node, member, rfl⟩
  · exact mem_live.mpr (.inl (by decide))
  · exact mem_live.mpr (.inr ⟨node, member, by simp [holds]⟩)

theorem step_owned (sound : s.Sound) (owned : Owns ∅ s.trace s.live) {action : CertAction}
    (taken : s.step action = some s') : Owns ∅ s'.trace s'.live := by
  cases action with
  | call t hostname =>
      simp only [step] at taken
      split at taken
      · split at taken <;> cases taken <;> exact owned
      · cases taken
  | lock t =>
      simp only [step] at taken
      split at taken
      · split at taken
        · cases taken
          exact owned
        · cases taken
      · cases taken
  | turn t generated =>
      simp only [step] at taken
      split at taken
      · rename_i hostname curr rest at_
        have here := sound.phases t
        rw [at_] at here
        obtain ⟨-, -, front, isNodes, -⟩ := here
        have listed : ∀ h ∈ holds curr, h ∈ s.live := fun h mine =>
          mem_live.mpr (.inr ⟨curr, by simp [isNodes], mine⟩)
        have read := owned.append <| @owns_uses _ _ s.live
          [.node curr.cert.number, .hostname curr.cert.number] fun h inside => listed h <| by
            simp only [List.mem_cons, List.not_mem_nil, or_false] at inside
            rcases inside with rfl | rfl <;> simp [holds]
        split at taken <;> cases taken <;> exact read
      · split at taken
        · cases taken
          exact owned.append (owns_insert sound _)
        · cases taken
          exact owned
      · cases taken
  | use t =>
      simp only [step] at taken
      split at taken
      · rename_i cert at_
        cases taken
        have used := sound.held_live at_
        exact owned.append (@owns_uses _ _ s.live [.x509 cert.number] (by simpa using used))
      · cases taken

theorem run_owned {actions : List CertAction} (reached : run step initOpenSSL actions = some s) :
    s.Sound ∧ Owns ∅ s.trace s.live :=
  @run_invariant _ _ step (fun s => s.Sound ∧ Owns ∅ s.trace s.live) _ _ _
    (fun s action s' both taken =>
      ⟨step_sound s action s' both.1 taken, step_owned both.1 both.2 taken⟩)
    ⟨sound_init, owned_init⟩ reached

end CertCache
end ProxyServer
