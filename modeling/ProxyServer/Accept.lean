import ProxyServer.CString

namespace ProxyServer

def octet (s : Bytes) : Option Nat :=
  let value := s.foldl (fun n c => n * 10 + (c.toNat - 48)) 0
  if s ≠ [] ∧ s.all isdigit ∧ (s.head? ≠ some 48 ∨ s.length = 1) ∧ value ≤ 255 then some value
  else none

def inetPton4 (s : Bytes) : Option UInt32 :=
  match (s.splitOn 46).mapM octet with
  | some [a, b, c, d] => some (UInt32.ofNat (((a * 256 + b) * 256 + c) * 256 + d))
  | _ => none

def ipMatches (ip rule : Bytes) : Bool :=
  if ip = rule then true
  else match rule.dropWhile (· != 47) with
    | [] => false
    | _ :: suffix =>
        let width := atoi suffix
        if width < 0 ∨ width > 32 then false
        else match inetPton4 ip, inetPton4 (rule.takeWhile (· != 47)) with
          | some address, some subnet =>
              let mask : UInt32 :=
                if width = 0 then 0 else 0xffffffff <<< UInt32.ofNat (32 - width.toNat)
              address &&& mask == subnet &&& mask
          | _, _ => false

structure AccessLists where
  allowIps : List Bytes
  denyIps : List Bytes

def checkIpAllowed (lists : AccessLists) (ip : Bytes) : Bool :=
  if lists.denyIps.any (ipMatches ip) then false
  else if lists.allowIps ≠ [] then lists.allowIps.any (ipMatches ip)
  else true

structure MaxClients where
  value : Nat
  positive : 1 ≤ value
  int : value < 2 ^ 31

inductive AcceptResult where
  | failed
  | connection (socket : Int) (ip : Bytes)
  deriving DecidableEq

inductive Access where
  | connectedSocketId (index : Int)
  | threadId (index : Int)
  deriving DecidableEq, Repr

def Access.index : Access → Int
  | .connectedSocketId index => index
  | .threadId index => index

/-- The accesses to the two arrays, from `ITERATOR` on; a failed `accept` ends the server. -/
def acceptLoop (lists : AccessLists) : Int → List AcceptResult → List Access
  | _, [] => []
  | _, .failed :: _ => []
  | iterator, .connection _ ip :: rest =>
      .connectedSocketId iterator ::
        if checkIpAllowed lists ip then
          .threadId iterator :: .connectedSocketId iterator ::
            acceptLoop lists (toInt (iterator + 1)) rest
        else .connectedSocketId iterator :: acceptLoop lists iterator rest

def admitted (lists : AccessLists) (results : List AcceptResult) : Nat :=
  results.countP fun
    | .failed => false
    | .connection _ ip => checkIpAllowed lists ip

def Inside (m : MaxClients) (access : Access) : Prop :=
  0 ≤ access.index ∧ access.index < m.value

def Spaced (lists : AccessLists) (m : MaxClients) (n : Nat) (results : List AcceptResult) : Prop :=
  ∀ past socket ip, .failed ∉ past → past ++ [.connection socket ip] <+: results →
    n + admitted lists past < m.value

theorem spaced_cons (lists : AccessLists) (m : MaxClients) (n : Nat) (socket : Int) (ip : Bytes)
    (rest : List AcceptResult) :
    Spaced lists m n (.connection socket ip :: rest) ↔
      n < m.value ∧ Spaced lists m (n + admitted lists [.connection socket ip]) rest := by
  have count (past : List AcceptResult) : admitted lists (.connection socket ip :: past) =
      admitted lists [.connection socket ip] + admitted lists past := by
    rw [← List.singleton_append, admitted, List.countP_append]
    rfl
  constructor
  · intro spaced
    constructor
    · simpa [admitted] using spaced [] socket ip (by simp) (by simp)
    · intro past socket' ip' alive isPrefix
      have bound := spaced (.connection socket ip :: past) socket' ip' (by simpa using alive)
        (by simpa using isPrefix)
      rw [count] at bound
      omega
  · intro given past socket' ip' alive isPrefix
    obtain ⟨room, later⟩ := given
    cases past with
    | nil => simpa [admitted] using room
    | cons first past =>
        obtain ⟨rfl, tail⟩ : first = .connection socket ip ∧
            past ++ [.connection socket' ip'] <+: rest := by simpa using isPrefix
        have bound := later past socket' ip' (by simpa using alive) tail
        rw [count]
        omega

theorem acceptLoop_inside_iff (lists : AccessLists) (m : MaxClients) (n : Nat)
    (results : List AcceptResult) :
    (∀ access ∈ acceptLoop lists n results, Inside m access) ↔ Spaced lists m n results := by
  induction results generalizing n with
  | nil => simp [acceptLoop, Spaced]
  | cons result rest ih =>
      cases result with
      | failed =>
          refine iff_of_true (by simp [acceptLoop]) ?_
          intro past socket ip alive isPrefix
          cases past with
          | nil => simp at isPrefix
          | cons first past =>
              obtain ⟨rfl, -⟩ : first = .failed ∧
                  past ++ [.connection socket ip] <+: rest := by simpa using isPrefix
              simp at alive
      | connection socket ip =>
          rw [spaced_cons]
          by_cases room : n < m.value
          · have int := m.int
            have next : toInt ((n : Int) + 1) = n + 1 := by
              unfold toInt
              rw [Int.bmod_eq_of_le] <;> omega
            have here : Inside m (.connectedSocketId n) ∧ Inside m (.threadId n) := by
              simp [Inside, Access.index, room]
            cases allowed : checkIpAllowed lists ip with
            | true =>
                have later := ih (n + 1)
                rw [Int.natCast_add] at later
                simpa [acceptLoop, admitted, allowed, next, room, here] using later
            | false => simpa [acceptLoop, admitted, allowed, room, here] using ih n
          · apply iff_of_false
            · intro inside
              have first := inside (.connectedSocketId n) (by simp [acceptLoop])
              simp [Inside, Access.index, room] at first
            · exact fun both => room both.1

/-- The arrays are accessed inside their bounds exactly as long as no connection comes after
`max_clients` were admitted. -/
theorem accesses_inside_iff (lists : AccessLists) (m : MaxClients) (results : List AcceptResult) :
    (∀ access ∈ acceptLoop lists 0 results, 0 ≤ access.index ∧ access.index < m.value) ↔
      ∀ past socket ip, .failed ∉ past → past ++ [.connection socket ip] <+: results →
        admitted lists past < m.value := by
  simpa [Inside, Spaced] using acceptLoop_inside_iff lists m 0 results

theorem second_client_outside :
    .connectedSocketId 1 ∈ acceptLoop ⟨[], []⟩ 0
        [.connection 5 (ascii "10.0.0.1"), .connection 6 (ascii "10.0.0.2")] ∧
      .threadId 1 ∈ acceptLoop ⟨[], []⟩ 0
        [.connection 5 (ascii "10.0.0.1"), .connection 6 (ascii "10.0.0.2")] ∧
      ¬ (Access.threadId 1).index < (MaxClients.mk 1 (by decide) (by decide)).value := by
  decide

end ProxyServer
