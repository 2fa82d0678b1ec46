import ProxyServer.Config.Model
import ProxyServer.Filter.Address
import ProxyServer.Filter.ContentType

namespace ProxyServer.Filter
open Config

/-! ## The domains -/

inductive TrieNode where
  | node (children : UInt8 → Option TrieNode) (isEndOfDomain : Bool)

def TrieNode.isEndOfDomain : TrieNode → Bool
  | node _ isEnd => isEnd

def trieCreateNode : TrieNode := .node (fun _ => none) false

def TrieNode.insert : TrieNode → Bytes → TrieNode
  | node children _, [] => node children true
  | node children isEnd, c :: rest =>
      let child := (children (tolower c)).getD trieCreateNode
      node (Function.update children (tolower c) (some (child.insert rest))) isEnd

def trieInsert (root : TrieNode) (domain : Bytes) : TrieNode := root.insert domain.reverse

def TrieNode.blocks : TrieNode → Bytes → Bool
  | _, [] => false
  | node children _, c :: rest =>
      match children (tolower c) with
      | none => false
      | some next =>
          if next.isEndOfDomain && (rest == [] || rest.head? == some 46) then true
          else next.blocks rest

/-! ## Lines -/

def fgetsAll (size : Nat) (line : Bytes) : Bytes → List Bytes
  | [] => if line = [] then [] else [line]
  | c :: rest =>
      let line := line ++ [c]
      if c = 10 ∨ line.length = size - 1 then line :: fgetsAll size [] rest
      else fgetsAll size line rest

def entryOf (line : Bytes) : Option Bytes :=
  let p := (cstr line).dropWhile isspace
  if p.head? = some 35 ∨ p = [] then none else some (p.rdropWhile isspace)

/-! ## The loaders -/

structure Library (ρ : Type*) where
  inetPton : Bytes → Option UInt32
  inetPton6 : Bytes → Option (Fin 16 → UInt8)
  regcomp : Bytes → Option ρ
  regexec : ρ → Bytes → Bool

variable {ρ : Type*} (lib : Library ρ)

def openList (fopen : Bytes → Option Bytes) (path : Bytes) : Option Bytes :=
  if path = [] then none else fopen path

def mask4 (bits : Nat) : UInt32 :=
  (~~~(((1 : UInt64) <<< (32 - bits).toUInt64) - 1)).toUInt32

def mask6 (bits : Nat) (j : Fin 16) : UInt8 :=
  if j < bits / 8 then 255
  else if j = bits / 8 ∧ bits % 8 ≠ 0 then 255 <<< (8 - bits % 8).toUInt8
  else 0

/-- `block` is what is in the array; the fields of the other family stay in it. -/
def parseCidr (str : Bytes) (block : CidrBlock) : Option CidrBlock :=
  let copy := str.take 255
  let (copy, bits) :=
    if 47 ∈ copy then
      (copy.takeWhile (· != 47), atoi (copy.dropWhile (· != 47)).tail)
    else (copy, -1)
  match lib.inetPton copy with
  | some addr =>
      let mask := mask4 (if bits < 0 ∨ bits > 32 then 32 else bits.toNat)
      some { block with isIpv6 := false, mask := mask, addr := addr &&& mask }
  | none =>
      match lib.inetPton6 copy with
      | some addr =>
          let mask := mask6 (if bits < 0 ∨ bits > 128 then 128 else bits.toNat)
          some { block with isIpv6 := true, mask6 := mask, addr6 := fun j => addr j &&& mask j }
      | none => none

def loadDomainList (root : TrieNode) (file : Option Bytes) : TrieNode :=
  file.elim root fun content =>
    ((fgetsAll 512 [] content).filterMap entryOf).foldl trieInsert root

structure IpList where
  blocks : Nat → CidrBlock
  count : Nat

def IpList.toList (list : IpList) : List CidrBlock := (List.range list.count).map list.blocks

def loadIps (maxSize : Nat) (list : IpList) : List Bytes → IpList
  | [] => list
  | line :: lines =>
      if list.count < maxSize then
        match (entryOf line).bind fun p => parseCidr lib p (list.blocks list.count) with
        | some block =>
            loadIps maxSize ⟨Function.update list.blocks list.count block, list.count + 1⟩ lines
        | none => loadIps maxSize list lines
      else list

def MAX_IP_BLOCKS : Nat := 1000

def loadIpList (list : IpList) (file : Option Bytes) : IpList :=
  file.elim list fun content => loadIps lib MAX_IP_BLOCKS list (fgetsAll 256 [] content)

def MAX_CONTENT_TYPES : Nat := 100

/-- The list is emptied only where there is a file. -/
def loadContentTypeList (list : List Bytes) (file : Option Bytes) : List Bytes :=
  file.elim list fun content =>
    (((fgetsAll 128 [] content).filterMap entryOf).map (List.take 127)).take MAX_CONTENT_TYPES

def MAX_URL_PATTERNS : Nat := 1000

def loadUrlList (patterns : List ρ) (file : Option Bytes) : List ρ :=
  file.elim patterns fun content =>
    (patterns ++ ((fgetsAll 1024 [] content).filterMap entryOf).filterMap lib.regcomp).take
      MAX_URL_PATTERNS

def loadBlockPage (file : Option Bytes) : Bytes :=
  cstr (file.elim (defaultBlockPage.take 8191) (List.take 8191))

/-! ## The filter -/

structure FilterState (ρ : Type*) where
  domainTrieRoot : Option TrieNode
  allowIps : IpList
  denyIps : IpList
  urlPatterns : List ρ
  contentTypeBlocklist : List Bytes
  blockPageHtml : Bytes
  filterEnabled : Bool
  savedCfg : ProxyConfig

def FilterState.zeroed : FilterState ρ where
  domainTrieRoot := none
  allowIps := ⟨fun _ => ⟨0, 0, false, fun _ => 0, fun _ => 0⟩, 0⟩
  denyIps := ⟨fun _ => ⟨0, 0, false, fun _ => 0, fun _ => 0⟩, 0⟩
  urlPatterns := []
  contentTypeBlocklist := []
  blockPageHtml := []
  filterEnabled := false
  savedCfg := .zeroed

/-- The content types stay. -/
def filterClear (f : FilterState ρ) : FilterState ρ :=
  { f with
    domainTrieRoot := some trieCreateNode
    allowIps := { f.allowIps with count := 0 }
    denyIps := { f.denyIps with count := 0 }
    urlPatterns := [] }

def loadLists (fopen : Bytes → Option Bytes) (cfg : ProxyConfig) (f : FilterState ρ) : FilterState ρ :=
  { f with
    domainTrieRoot := f.domainTrieRoot.map fun root =>
      loadDomainList root (openList fopen (cfg.text .blocklistFile))
    allowIps := loadIpList lib f.allowIps (openList fopen (cfg.text .allowIpFile))
    denyIps := loadIpList lib f.denyIps (openList fopen (cfg.text .denyIpFile))
    urlPatterns := loadUrlList lib f.urlPatterns (openList fopen (cfg.text .urlBlocklistFile))
    contentTypeBlocklist := loadContentTypeList f.contentTypeBlocklist
      (openList fopen (cfg.text .contentTypeBlocklistFile))
    blockPageHtml := loadBlockPage (openList fopen (cfg.text .blockPageFile)) }

def filterInit (fopen : Bytes → Option Bytes) (cfg : ProxyConfig) (f : FilterState ρ) : FilterState ρ :=
  let f := { f with savedCfg := cfg, filterEnabled := cfg.flag .enableFilter }
  if f.filterEnabled then loadLists lib fopen cfg (filterClear f) else f

def filterReload (fopen : Bytes → Option Bytes) (f : FilterState ρ) : FilterState ρ :=
  if f.filterEnabled then loadLists lib fopen f.savedCfg (filterClear f) else f

/-! ## The verdicts -/

def filterIsDomainBlocked (f : FilterState ρ) (domain : Bytes) : Bool :=
  f.filterEnabled && f.domainTrieRoot.any (·.blocks domain.reverse)

def filterIsUrlBlocked (f : FilterState ρ) (url : Bytes) : Bool :=
  f.filterEnabled && f.urlPatterns.any (lib.regexec · url)

def FilterState.addresses (f : FilterState ρ) : AddressFilter where
  enabled := f.filterEnabled
  allowIps := f.allowIps.toList
  denyIps := f.denyIps.toList

def FilterState.content (f : FilterState ρ) : ContentFilter where
  enabled := f.filterEnabled
  contentTypes := f.contentTypeBlocklist
  blockPage := f.blockPageHtml

structure SameVerdicts (f g : FilterState ρ) : Prop where
  domain : ∀ domain, filterIsDomainBlocked f domain = filterIsDomainBlocked g domain
  url : ∀ url, filterIsUrlBlocked lib f url = filterIsUrlBlocked lib g url
  ip : ∀ sa, filterIsIpBlocked f.addresses sa = filterIsIpBlocked g.addresses sa
  contentType : ∀ contentType,
    filterIsContentTypeBlocked f.content contentType =
      filterIsContentTypeBlocked g.content contentType

end ProxyServer.Filter
