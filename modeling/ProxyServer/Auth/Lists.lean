import ProxyServer.Accept
import ProxyServer.Auth.BasicAuth
import ProxyServer.Filter.Pieces

/-!
# The lists of `auth.c`

`isspace` is given a plain `char` here; no byte above 127 is a space for it either.
-/

namespace ProxyServer
open Config Filter

def maxIps : Nat := 1024

def maxUsers : Nat := 1024

def maxIpLen : Nat := 64

def loadList (file : Option Bytes) : List Bytes :=
  file.elim [] fun content =>
    (((fgetsAll 256 [] content).filterMap entryOf).map (List.take (maxIpLen - 1))).take maxIps

theorem take_text {text : Bytes} (given : IsRule text ∧ 0 ∉ text) :
    text.take (maxCredsLen - 1) ≠ [] ∧ (text.take (maxCredsLen - 1)).length < maxCredsLen ∧
      0 ∉ text.take (maxCredsLen - 1) := by
  obtain ⟨⟨⟨c, rest, rfl, -⟩, -⟩, string⟩ := given
  refine ⟨List.cons_ne_nil _ _, ?_, fun inside => string (List.mem_of_mem_take inside)⟩
  rw [List.length_take]
  exact (Nat.min_le_left _ _).trans_lt (by decide)

def authUserOf (line : Bytes) : Option AuthUser :=
  (entryOf line).pmap
    (fun text given => ⟨text.take (maxCredsLen - 1), (take_text given).1, (take_text given).2.1,
      (take_text given).2.2⟩)
    fun _ found => entryOf_rule found

def loadUsers (file : Option Bytes) : List AuthUser :=
  file.elim [] fun content => ((fgetsAll 256 [] content).filterMap authUserOf).take maxUsers

structure AuthState where
  enabled : Bool
  lists : AccessLists
  users : List AuthUser

def authInit (fopen : Bytes → Option Bytes) (cfg : ProxyConfig) : AuthState where
  enabled := cfg.flag .enableAuth
  lists :=
    { allowIps := loadList (openList fopen (cfg.text .allowIpFile))
      denyIps := loadList (openList fopen (cfg.text .denyIpFile)) }
  users := if cfg.flag .enableAuth then loadUsers (openList fopen (cfg.text .authFile)) else []

end ProxyServer
