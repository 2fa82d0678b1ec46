import ProxyServer.Config.HotReload
import ProxyServer.Config.Precedence
import ProxyServer.Filter.Lists

namespace ProxyServer.Filter
open Lib Config

variable {ρ : Type*} (lib : Library ρ)

theorem covers_parseCidr (str : Bytes) (block block' : CidrBlock) :
    (parseCidr lib str block).map CidrBlock.covers =
      (parseCidr lib str block').map CidrBlock.covers := by
  simp only [parseCidr]
  split
  · rename_i addr _
    simp only [Option.map_some, Option.some.injEq]
    funext sa
    cases sa <;> simp [CidrBlock.covers]
  · split
    · simp only [Option.map_some, Option.some.injEq]
      funext sa
      cases sa <;> simp [CidrBlock.covers]
    · rfl

def IpList.Alike (list list' : IpList) : Prop :=
  list.count = list'.count ∧
    ∀ i < list.count, (list.blocks i).covers = (list'.blocks i).covers

theorem IpList.Alike.covers {list list' : IpList} (alike : list.Alike list') :
    list.toList.map CidrBlock.covers = list'.toList.map CidrBlock.covers := by
  rw [IpList.toList, IpList.toList, List.map_map, List.map_map, ← alike.1]
  exact List.map_congr_left fun i below => alike.2 i (List.mem_range.mp below)

theorem alike_loadIps (maxSize : Nat) (lines : List Bytes) {list list' : IpList}
    (alike : list.Alike list') :
    (loadIps lib maxSize list lines).Alike (loadIps lib maxSize list' lines) := by
  induction lines generalizing list list' with
  | nil => exact alike
  | cons line lines ih =>
      obtain ⟨count, covers⟩ := alike
      rw [loadIps, loadIps, ← count]
      split
      · cases entry : entryOf line with
        | none => exact ih ⟨count, covers⟩
        | some p =>
            have same := covers_parseCidr lib p (list.blocks list.count) (list'.blocks list.count)
            simp only [Option.bind_some]
            cases here : parseCidr lib p (list.blocks list.count) with
            | none =>
                cases there : parseCidr lib p (list'.blocks list.count) with
                | none => exact ih ⟨count, covers⟩
                | some block' => simp [here, there] at same
            | some block =>
                cases there : parseCidr lib p (list'.blocks list.count) with
                | none => simp [here, there] at same
                | some block' =>
                    simp only [here, there, Option.map_some, Option.some.injEq] at same
                    refine ih ⟨rfl, fun i below => ?_⟩
                    by_cases last : i = list.count
                    · subst last
                      simpa using same
                    · have earlier : i < list.count := by
                        change i < list.count + 1 at below
                        omega
                      simpa [Function.update_of_ne last] using covers i earlier
      · exact ⟨count, covers⟩

theorem alike_loadIpList {list list' : IpList} (alike : list.Alike list') (file : Option Bytes) :
    (loadIpList lib list file).Alike (loadIpList lib list' file) := by
  cases file with
  | none => exact alike
  | some content => exact alike_loadIps lib MAX_IP_BLOCKS _ alike

theorem filterIsIpBlocked_congr {f g : AddressFilter} (enabled : f.enabled = g.enabled)
    (allow : f.allowIps.map CidrBlock.covers = g.allowIps.map CidrBlock.covers)
    (deny : f.denyIps.map CidrBlock.covers = g.denyIps.map CidrBlock.covers) (sa : SockAddr) :
    filterIsIpBlocked f sa = filterIsIpBlocked g sa := by
  have any (blocks : List CidrBlock) :
      blocks.any (·.covers sa) = (blocks.map CidrBlock.covers).any (· sa) := by
    rw [List.any_map]
    rfl
  simp only [filterIsIpBlocked, enabled]
  split
  · rfl
  · cases sa <;> simp only [any, allow, deny]

/-- What the lists of a configuration that filters read as; the content types have no key in any
source, so there is never a list of them. -/
def listsRead (fopen : Bytes → Option Bytes) (cfg : ProxyConfig) : Option (List (Option Bytes)) :=
  if cfg.flag .enableFilter then
    some ([.blocklistFile, .allowIpFile, .denyIpFile, .urlBlocklistFile].map fun field =>
      openList fopen (cfg.text field))
  else none

theorem sameVerdicts_disabled {f g : FilterState ρ} (off : f.filterEnabled = false)
    (off' : g.filterEnabled = false) : SameVerdicts lib f g where
  domain _ := by simp [filterIsDomainBlocked, off, off']
  url _ := by simp [filterIsUrlBlocked, off, off']
  ip _ := by simp [filterIsIpBlocked, FilterState.addresses, off, off']
  contentType _ := by simp [filterIsContentTypeBlocked, FilterState.content, off, off']

theorem sameVerdicts_loadLists {f g : FilterState ρ} {cfg cfg' : ProxyConfig}
    {fopen : Bytes → Option Bytes} (enabled : f.filterEnabled = g.filterEnabled)
    (same : ∀ field ∈ [TextField.blocklistFile, .allowIpFile, .denyIpFile, .urlBlocklistFile,
      .contentTypeBlocklistFile],
      openList fopen (cfg.text field) = openList fopen (cfg'.text field))
    (contentTypes : f.contentTypeBlocklist = g.contentTypeBlocklist) :
    SameVerdicts lib (loadLists lib fopen cfg (filterClear f))
      (loadLists lib fopen cfg' (filterClear g)) := by
  have cleared (list list' : IpList) : IpList.Alike { list with count := 0 }
      { list' with count := 0 } := ⟨rfl, fun i below => absurd below (Nat.not_lt_zero i)⟩
  have domains := same .blocklistFile (by simp)
  have allows := same .allowIpFile (by simp)
  have denies := same .denyIpFile (by simp)
  have urls := same .urlBlocklistFile (by simp)
  have types := same .contentTypeBlocklistFile (by simp)
  exact
    { domain := fun domain => by
        simp [filterIsDomainBlocked, loadLists, filterClear, enabled, domains]
      url := fun url => by
        simp [filterIsUrlBlocked, loadLists, filterClear, enabled, urls]
      ip := by
        refine filterIsIpBlocked_congr enabled ?_ ?_
        · simp only [FilterState.addresses, loadLists, filterClear, allows]
          exact (alike_loadIpList lib (cleared _ _) _).covers
        · simp only [FilterState.addresses, loadLists, filterClear, denies]
          exact (alike_loadIpList lib (cleared _ _) _).covers
      contentType := fun contentType => by
        simp [filterIsContentTypeBlocked, FilterState.content, loadLists, filterClear, enabled,
          types, contentTypes] }

structure Process (ρ : Type*) where
  config : ProxyConfig
  filter : FilterState ρ

/-- A round of the thread that watches the configuration, or one of the thread that watches the
lists; `fopen` opens the lists as they are then. -/
inductive Event where
  | hotReload (w : Wakeup) (fopen : Bytes → Option Bytes)
  | listsChanged (fopen : Bytes → Option Bytes)

def Process.step (getenv : Bytes → Option Bytes) (p : Process ρ) : Event → Process ρ
  | .hotReload w fopen =>
      if w.Reloads then ⟨Config.hotReload getenv p.config w, filterReload lib fopen p.filter⟩
      else p
  | .listsChanged fopen => { p with filter := filterReload lib fopen p.filter }

def Process.start (s : Started) (fopen : Bytes → Option Bytes) : Process ρ where
  config := s.config
  filter := filterInit lib fopen s.config .zeroed

structure Since (s : Started) (p : Process ρ) : Prop where
  saved : p.filter.savedCfg = s.config
  enabled : p.filter.filterEnabled = s.config.flag .enableFilter
  noTypes : p.filter.contentTypeBlocklist = []
  noTypesFile : p.config.text .contentTypeBlocklistFile = []

theorem startup_noTypesFile {host : Host} {args : List Bytes} {s : Started}
    (started : startup host args = some s) : s.config.text .contentTypeBlocklistFile = [] := by
  have unkeyed (line : Bytes) : (lineMention line).bind
      (only (.text .contentTypeBlocklistFile)) = none := by
    rw [← lineValue_eq, Setting.lineValue, Setting.fileKey, if_pos rfl]
    cases parseConfigLine ((cstr line).dropWhile isspace) 256 512 <;> simp
  have inFile : lastMention (.text .contentTypeBlocklistFile)
      (fileMentions (host.fopen (configFile host args))) = none := by
    cases host.fopen (configFile host args) with
    | error errno => rfl
    | ok content =>
        rw [fileMentions, lastMention_filterMap, List.findSome?_eq_none_iff]
        exact fun line _ => unkeyed line
  have inArgs (args : List Bytes) : lastMention (.text .contentTypeBlocklistFile)
      (args.filterMap argMention) = none := by
    rw [lastMention_args, List.findSome?_eq_none_iff]
    intro arg _
    simp [Setting.argValue, Setting.valueOption, Setting.switch]
  have onCommandLine : lastMention (.text .contentTypeBlocklistFile) (argMentions args) = none := by
    unfold argMentions
    split
    · split
      · rfl
      · exact inArgs _
    · exact inArgs _
  have got := fields.get_run (.text .contentTypeBlocklistFile) (mentions host args)
    (configInitDefaults .zeroed)
  rw [mentions, earlyMentions, lastMention_append, lastMention_append, inFile, onCommandLine,
    envNames_lastMention] at got
  rw [(startup_some started).1]
  exact got

theorem filterReload_keeps (fopen : Bytes → Option Bytes) (f : FilterState ρ) :
    (filterReload lib fopen f).savedCfg = f.savedCfg ∧
      (filterReload lib fopen f).filterEnabled = f.filterEnabled := by
  rw [filterReload]
  split <;> exact ⟨rfl, rfl⟩

theorem filterReload_noTypes {f : FilterState ρ} (noTypes : f.contentTypeBlocklist = [])
    (noFile : f.savedCfg.text .contentTypeBlocklistFile = []) (fopen : Bytes → Option Bytes) :
    (filterReload lib fopen f).contentTypeBlocklist = [] := by
  rw [filterReload]
  split
  · simp [loadLists, filterClear, loadContentTypeList, openList, noFile, noTypes]
  · exact noTypes

theorem Since.step {host : Host} {args : List Bytes} {s : Started}
    (started : startup host args = some s) {p : Process ρ} (since : Since s p)
    (getenv : Bytes → Option Bytes) (event : Event) : Since s (p.step lib getenv event) := by
  have noFile : p.filter.savedCfg.text .contentTypeBlocklistFile = [] := by
    rw [since.saved]
    exact startup_noTypesFile started
  have reloaded (config : ProxyConfig) (fopen : Bytes → Option Bytes)
      (noTypesFile : config.text .contentTypeBlocklistFile = []) :
      Since s ⟨config, filterReload lib fopen p.filter⟩ :=
    { saved := (filterReload_keeps lib fopen p.filter).1.trans since.saved
      enabled := (filterReload_keeps lib fopen p.filter).2.trans since.enabled
      noTypes := filterReload_noTypes lib since.noTypes noFile fopen
      noTypesFile := noTypesFile }
  cases event with
  | hotReload w fopen =>
      rw [Process.step]
      split
      · rename_i reloads
        refine reloaded _ fopen ?_
        have kept := @get_hotReload_of_fixed w reloads getenv p.config
          (.text .contentTypeBlocklistFile) (by decide)
        exact kept.trans since.noTypesFile
      · exact since
  | listsChanged fopen => exact reloaded _ fopen since.noTypesFile

theorem Since.start {host : Host} {args : List Bytes} {s : Started}
    (started : startup host args = some s) (fopen : Bytes → Option Bytes) :
    Since s (Process.start lib s fopen) := by
  have noFile := startup_noTypesFile started
  refine ⟨?_, ?_, ?_, noFile⟩ <;> rw [Process.start, filterInit]
  · split <;> rfl
  · split <;> rfl
  · split
    · simp [loadLists, filterClear, loadContentTypeList, openList, noFile, FilterState.zeroed]
    · rfl

theorem listsRead_hotReload {w : Wakeup} (reloads : w.Reloads) (getenv : Bytes → Option Bytes)
    (cfg : ProxyConfig) (fopen : Bytes → Option Bytes) :
    listsRead fopen (Config.hotReload getenv cfg w) =
      listsRead fopen (fileAndEnv getenv w.file) := by
  have taken (setting : Setting) := @get_hotReload_of_safe w reloads getenv cfg setting
  have enabled := taken (.flag .enableFilter) (by decide)
  have domains := taken (.text .blocklistFile) (by decide)
  have allows := taken (.text .allowIpFile) (by decide)
  have denies := taken (.text .denyIpFile) (by decide)
  have urls := taken (.text .urlBlocklistFile) (by decide)
  simp only [Setting.get] at enabled domains allows denies urls
  simp [listsRead, enabled, domains, allows, denies, urls]

theorem sameVerdicts_of_listsRead {host : Host} {args : List Bytes} {s : Started}
    (started : startup host args = some s) {p : Process ρ} (since : Since s p)
    {config : ProxyConfig} (noTypesFile : config.text .contentTypeBlocklistFile = [])
    {fopen : Bytes → Option Bytes} (same : listsRead fopen s.config = listsRead fopen config) :
    SameVerdicts lib (filterReload lib fopen p.filter) (filterInit lib fopen config .zeroed) := by
  have noFile := startup_noTypesFile started
  rw [listsRead, listsRead, ← since.enabled] at same
  rw [filterReload, filterInit]
  cases enabled : p.filter.filterEnabled with
  | false =>
      rw [enabled] at same
      have off : config.flag .enableFilter = false := by
        by_contra on
        simp [Bool.not_eq_false _ ▸ on] at same
      simp only [off, Bool.false_eq_true, if_false]
      exact sameVerdicts_disabled lib enabled rfl
  | true =>
      rw [enabled, if_pos rfl] at same
      split at same
      · rename_i on
        simp only [on, if_true, since.saved]
        refine sameVerdicts_loadLists lib enabled ?_ since.noTypes
        simp only [Option.some.injEq, List.map_cons, List.map_nil, List.cons.injEq,
          and_true] at same
        obtain ⟨domains, allows, denies, urls⟩ := same
        simp [domains, allows, denies, urls, noFile, noTypesFile]
      · simp at same

/-- A run in which the lists named at startup always read as those of the reloaded file do: after
each reload the filter is the one of a restart. -/
theorem filter_reload_eq_restart {host : Host} {args : List Bytes} {s : Started}
    (started : startup host args = some s) (fopen₀ : Bytes → Option Bytes) (events : List Event)
    (same : ∀ w fopen, .hotReload w fopen ∈ events → w.Reloads →
      listsRead fopen s.config = listsRead fopen (fileAndEnv host.getenv w.file)) :
    ∀ past w fopen, past ++ [.hotReload w fopen] <+: events → w.Reloads →
      let p := (past ++ [.hotReload w fopen]).foldl (Process.step lib host.getenv)
        (Process.start lib s fopen₀)
      SameVerdicts lib p.filter (filterInit lib fopen p.config .zeroed) := by
  have since (past : List Event) :
      Since s (past.foldl (Process.step lib host.getenv) (Process.start lib s fopen₀)) := by
    induction past using List.reverseRecOn with
    | nil => exact Since.start lib started fopen₀
    | append_singleton past event ih =>
        rw [List.foldl_append]
        exact ih.step lib started host.getenv event
  intro past w fopen isPrefix reloads
  have lists := same w fopen (isPrefix.subset (by simp)) reloads
  have after := since (past ++ [.hotReload w fopen])
  rw [List.foldl_append, List.foldl_cons, List.foldl_nil, Process.step, if_pos reloads] at after ⊢
  refine sameVerdicts_of_listsRead lib started (since past) after.noTypesFile ?_
  rw [lists, listsRead_hotReload reloads]

def plain : Library Unit := ⟨fun _ => none, fun _ => none, fun _ => none, fun _ _ => false⟩

def filtering : Bytes := ascii "enable_filter=1\nblocklist_file=b\n"

def filteringHost : Host where
  getenv _ := none
  fopen _ := .ok filtering
  confExists := false

def oneEntry (_ : Bytes) : Option Bytes := some (ascii "x.example\n")

theorem sameLists_reload_eq_restart : ∃ s, startup filteringHost [] = some s ∧
    let p := (Process.start plain s oneEntry).step plain filteringHost.getenv
      (.hotReload (edit (filtering ++ ascii "enable_cache=0\n")) oneEntry)
    SameVerdicts plain p.filter (filterInit plain oneEntry p.config .zeroed) := by
  have done : (startup filteringHost []).map (fun s => listsRead oneEntry s.config) =
      some (listsRead oneEntry (fileAndEnv filteringHost.getenv
        (.ok (filtering ++ ascii "enable_cache=0\n")))) := by
    decide +kernel
  obtain ⟨s, started, lists⟩ := Option.map_eq_some_iff.mp done
  refine ⟨s, started, ?_⟩
  exact filter_reload_eq_restart plain started oneEntry
    [.hotReload (edit (filtering ++ ascii "enable_cache=0\n")) oneEntry]
    (fun w fopen member _ => by
      obtain ⟨rfl, rfl⟩ := by simpa using member
      exact lists)
    [] _ _ (List.prefix_refl _) (by decide)

theorem turnedOn_ne_restart : ∃ s, startup watched [] = some s ∧
    let p := (Process.start plain s oneEntry).step plain watched.getenv
      (.hotReload (edit filtering) oneEntry)
    filterIsDomainBlocked p.filter (ascii "x.example") = false ∧
      filterIsDomainBlocked (filterInit plain oneEntry p.config .zeroed) (ascii "x.example") =
        true ∧
      ¬ SameVerdicts plain p.filter (filterInit plain oneEntry p.config .zeroed) := by
  have done : (startup watched []).map (fun s =>
      let p := (Process.start plain s oneEntry).step plain watched.getenv
        (.hotReload (edit filtering) oneEntry)
      (filterIsDomainBlocked p.filter (ascii "x.example"),
        filterIsDomainBlocked (filterInit plain oneEntry p.config .zeroed)
          (ascii "x.example"))) = some (false, true) := by
    decide +kernel
  obtain ⟨s, started, verdicts⟩ := Option.map_eq_some_iff.mp done
  obtain ⟨running, restarted⟩ := Prod.mk.inj verdicts
  refine ⟨s, started, running, restarted, fun same => ?_⟩
  have contradiction := (same.domain (ascii "x.example")).symm.trans running
  exact absurd (restarted.symm.trans contradiction) (by simp)

end ProxyServer.Filter
