/-
# A bookmark as a file

`RDPFileHelper` writes the settings of a bookmark to a file and reads them from one.  Host and port
share a line, and so do those of the gateway: the port is what stands behind the last colon.  A host
with a colon and no port behind it is taken apart.

`export_read_iff` has the exact condition for a bookmark to be what its file is read as.
-/
import XyDeskRemote.RdpFileParser

open List

namespace RDPFileHelper

open KotlinText RDPFileParser
open WorkerText (lit)

/-! ## Bookmarks -/

/-- The settings of the screen. -/
structure ScreenSettings where
  resolution : Int32
  colors : Int32
  width : Int32
  height : Int32

namespace ScreenSettings

/-- `CUSTOM`. -/
def custom : Int32 := 0

/-- The settings with what is valid. -/
def validate (screen : ScreenSettings) : ScreenSettings where
  colors := if screen.colors ∈ [32, 24, 16, 15, 8] then screen.colors else 32
  width := if screen.width ≤ 0 ∨ screen.width > 65536 then 1024 else screen.width
  height := if screen.height ≤ 0 ∨ screen.height > 65536 then 768 else screen.height
  resolution := if screen.resolution ∈ [-2, -1, 0, 1] then screen.resolution else -1

/-- `getWidth`. -/
def getWidth (screen : ScreenSettings) : Int32 := screen.validate.width

/-- `getHeight`. -/
def getHeight (screen : ScreenSettings) : Int32 := screen.validate.height

/-- `getColors`. -/
def getColors (screen : ScreenSettings) : Int32 := screen.validate.colors

end ScreenSettings

/-- The flags for the performance. -/
structure PerformanceFlags where
  wallpaper : Bool
  fontSmoothing : Bool
  desktopComposition : Bool
  menuAnimations : Bool
  theming : Bool
  fullWindowDrag : Bool

/-- The advanced settings. -/
structure AdvancedSettings where
  consoleMode : Bool
  redirectSound : Int32
  redirectMicrophone : Bool
  loadBalanceInfo : CodeUnits
  remoteProgram : CodeUnits
  alternateShell : CodeUnits
  workDir : CodeUnits
  redirectPrinter : Bool
  vmConnectMode : Bool
  vmConnectGuid : CodeUnits

/-- `getRedirectSound`. -/
def AdvancedSettings.getRedirectSound (advanced : AdvancedSettings) : Int32 :=
  if advanced.redirectSound ∈ [0, 1, 2] then advanced.redirectSound else 0

/-- The settings of the gateway. -/
structure GatewaySettings where
  hostname : CodeUnits
  port : Int32

/-- `BookmarkBase`, with the settings that a file may have. -/
structure BookmarkBase where
  hostname : CodeUnits
  port : Int32
  username : CodeUnits
  domain : CodeUnits
  screenSettings : ScreenSettings
  performanceFlags : PerformanceFlags
  advancedSettings : AdvancedSettings
  enableGatewaySettings : Bool
  gatewaySettings : GatewaySettings

/-- A fresh bookmark. -/
def BookmarkBase.fresh : BookmarkBase where
  hostname := []
  port := 3389
  username := []
  domain := []
  screenSettings := ⟨-1, 32, 0, 0⟩
  performanceFlags := ⟨true, true, true, true, true, true⟩
  advancedSettings := ⟨false, 0, false, [], [], [], [], false, false, []⟩
  enableGatewaySettings := false
  gatewaySettings := ⟨[], 443⟩

/-! ## Export -/

/-- A host, with its port unless that is the usual one. -/
def hostPort (usual : Int32) (host : CodeUnits) (port : Int32) : CodeUnits :=
  if port ≠ usual then host ++ 0x3A :: intText port else host

/-- A line that is written under a condition. -/
def writeIf (written : Prop) [Decidable written] (value : OptionValue) : Option OptionValue :=
  if written then some value else none

/-- A text that is written unless it is empty. -/
def writeText (s : CodeUnits) : Option OptionValue := writeIf (s ≠ []) (.string s)

/-- A flag as it is written, and as its opposite is. -/
def flag (b : Bool) : OptionValue := .integer (if b then 1 else 0)

/-- What is written, line by line. -/
def settings (bookmark : BookmarkBase) : List (CodeUnits × Option OptionValue) :=
  let screen := bookmark.screenSettings
  let perf := bookmark.performanceFlags
  let adv := bookmark.advancedSettings
  let gw := bookmark.gatewaySettings
  [(lit "full address", some (.string (hostPort 3389 bookmark.hostname bookmark.port))),
    (lit "username", writeText bookmark.username),
    (lit "domain", writeText bookmark.domain),
    (lit "desktopwidth",
      writeIf (screen.resolution = ScreenSettings.custom) (.integer screen.getWidth)),
    (lit "desktopheight",
      writeIf (screen.resolution = ScreenSettings.custom) (.integer screen.getHeight)),
    (lit "session bpp", some (.integer screen.getColors)),
    (lit "disable wallpaper", some (flag !perf.wallpaper)),
    (lit "allow font smoothing", some (flag perf.fontSmoothing)),
    (lit "allow desktop composition", some (flag perf.desktopComposition)),
    (lit "disable menu anims", some (flag !perf.menuAnimations)),
    (lit "disable themes", some (flag !perf.theming)),
    (lit "disable full window drag", some (flag !perf.fullWindowDrag)),
    (lit "connect to console", writeIf (adv.consoleMode = true) (.integer 1)),
    (lit "audiomode", writeIf (adv.getRedirectSound ≠ 0) (.integer adv.getRedirectSound)),
    (lit "audiocapturemode", writeIf (adv.redirectMicrophone = true) (.integer 1)),
    (lit "loadbalanceinfo", writeText adv.loadBalanceInfo),
    (lit "remoteapplicationprogram", writeText adv.remoteProgram),
    (lit "remoteapplicationmode", writeIf (adv.remoteProgram ≠ []) (.integer 1)),
    (lit "alternate shell", writeText adv.alternateShell),
    (lit "shell working directory", writeText adv.workDir),
    (lit "gatewayhostname",
      writeIf (bookmark.enableGatewaySettings = true) (.string (hostPort 443 gw.hostname gw.port))),
    (lit "gatewayusagemethod", writeIf (bookmark.enableGatewaySettings = true) (.integer 2)),
    (lit "pcb", writeIf (adv.vmConnectMode = true) (.string adv.vmConnectGuid)),
    (lit "redirectprinters", writeIf (adv.redirectPrinter = true) (.integer 1))]

/-- `toRdpString`. -/
def toRdpString (bookmark : BookmarkBase) : CodeUnits := settingsText (settings bookmark)

/-! ## Import -/

/-- An index, or -1. -/
def indexOr (i : Option ℕ) : ℤ := i.elim (-1) fun k => k

/-- An address without the brackets around it. -/
def unbracket (s : CodeUnits) : CodeUnits :=
  if s.head? = some 0x5B ∧ s.getLast? = some 0x5D then s.tail.dropLast else s

/-- A full address: the port, when there is one, and the host. -/
def readAddress (s : CodeUnits) : Option Int32 × CodeUnits :=
  let colonIdx := indexOr (lastIndexOf 0x3A s)
  if colonIdx > indexOr (lastIndexOf 0x5D s) then
    (parseInt (s.drop (colonIdx.toNat + 1)), unbracket (s.take colonIdx.toNat))
  else (none, unbracket s)

/-- The address of a gateway. -/
def readGateway (s : CodeUnits) : GatewaySettings :=
  let colonIdx := indexOr (lastIndexOf 0x3A s)
  if colonIdx > 0 then
    match parseInt (s.drop (colonIdx.toNat + 1)) with
    | some port => ⟨s.take colonIdx.toNat, port⟩
    | none => ⟨s, 443⟩
  else ⟨s, 443⟩

/-- A text option that is set when it is not empty. -/
def textOr (options : Options) (name old : CodeUnits) : CodeUnits :=
  match getString options name with
  | some s => if s ≠ [] then s else old
  | none => old

/-- A flag that is set to whether an option is `value`. -/
def flagOr (options : Options) (name : CodeUnits) (value : Int32) (old : Bool) : Bool :=
  (getInteger options name).elim old (· = value)

/-- The screen of a file. -/
def importScreen (options : Options) (screen : ScreenSettings) : ScreenSettings :=
  let sized :=
    match getInteger options (lit "desktopwidth"), getInteger options (lit "desktopheight") with
    | some w, some h =>
      if w > 0 ∧ h > 0 then
        { screen with width := w, height := h, resolution := ScreenSettings.custom }
      else screen
    | _, _ => screen
  { sized with colors := (getInteger options (lit "session bpp")).getD sized.colors }

/-- The performance flags of a file. -/
def importPerformance (options : Options) (perf : PerformanceFlags) : PerformanceFlags where
  wallpaper := flagOr options (lit "disable wallpaper") 0 perf.wallpaper
  fontSmoothing := flagOr options (lit "allow font smoothing") 1 perf.fontSmoothing
  desktopComposition := flagOr options (lit "allow desktop composition") 1 perf.desktopComposition
  menuAnimations := flagOr options (lit "disable menu anims") 0 perf.menuAnimations
  theming := flagOr options (lit "disable themes") 0 perf.theming
  fullWindowDrag := flagOr options (lit "disable full window drag") 0 perf.fullWindowDrag

/-- The advanced settings of a file. -/
def importAdvanced (options : Options) (advanced : AdvancedSettings) : AdvancedSettings where
  consoleMode := flagOr options (lit "connect to console") 1 advanced.consoleMode
  redirectSound :=
    match getInteger options (lit "audiomode") with
    | some i => if i ≥ 0 ∧ i ≤ 2 then i else advanced.redirectSound
    | none => advanced.redirectSound
  redirectMicrophone := flagOr options (lit "audiocapturemode") 1 advanced.redirectMicrophone
  loadBalanceInfo := textOr options (lit "loadbalanceinfo") advanced.loadBalanceInfo
  remoteProgram := textOr options (lit "remoteapplicationprogram") advanced.remoteProgram
  alternateShell := textOr options (lit "alternate shell") advanced.alternateShell
  workDir := textOr options (lit "shell working directory") advanced.workDir
  redirectPrinter :=
    flagOr options (lit "disableprinterredirection") 0
      (flagOr options (lit "redirectprinters") 1 advanced.redirectPrinter)
  vmConnectMode :=
    match getString options (lit "pcb") with
    | some s => if s ≠ [] then true else advanced.vmConnectMode
    | none => advanced.vmConnectMode
  vmConnectGuid := textOr options (lit "pcb") advanced.vmConnectGuid

/-- What `importFrom` sets, from the options of the file. -/
def importOptions (options : Options) (bookmark : BookmarkBase) : BookmarkBase where
  hostname :=
    (getString options (lit "full address")).elim bookmark.hostname fun s => (readAddress s).2
  port :=
    (getInteger options (lit "server port")).getD
      (((getString options (lit "full address")).bind fun s => (readAddress s).1).getD
        bookmark.port)
  username := (getString options (lit "username")).getD bookmark.username
  domain := (getString options (lit "domain")).getD bookmark.domain
  screenSettings := importScreen options bookmark.screenSettings
  performanceFlags := importPerformance options bookmark.performanceFlags
  advancedSettings := importAdvanced options bookmark.advancedSettings
  enableGatewaySettings :=
    (getInteger options (lit "gatewayusagemethod")).elim
      (match getString options (lit "gatewayhostname") with
        | some s => if s ≠ [] then true else bookmark.enableGatewaySettings
        | none => bookmark.enableGatewaySettings)
      fun i => i = 1 ∨ i = 2
  gatewaySettings :=
    match getString options (lit "gatewayhostname") with
    | some s => if s ≠ [] then readGateway s else bookmark.gatewaySettings
    | none => bookmark.gatewaySettings

/-- `importFrom`, for the text of a file; `none` is an `IOException`. -/
def importFrom (lower : LowerCaseTable) (text : CodeUnits) (bookmark : BookmarkBase) :
    Option BookmarkBase :=
  (parse lower text).map fun options => importOptions options bookmark

/-! ## Values that are read back -/

section Values

variable {read : Options} {name s : CodeUnits} {b old : Bool} {i : Int32}

theorem getString_string (h : read name = some (.string s)) : getString read name = some s := by
  rw [getString, h]

theorem getInteger_integer (h : read name = some (.integer i)) : getInteger read name = some i := by
  rw [getInteger, h]

theorem getString_none (h : read name = none) : getString read name = none := by
  rw [getString, h]

theorem getInteger_none (h : read name = none) : getInteger read name = none := by
  rw [getInteger, h]

/-- A text that is not written is empty, as in a fresh bookmark. -/
theorem getD_writeText (h : read name = writeText s) : (getString read name).getD [] = s := by
  rw [writeText, writeIf] at h
  split at h
  · rw [getString_string h]
    rfl
  · rename_i hs
    rw [getString_none h, Classical.not_not.1 hs]
    rfl

theorem textOr_writeText (h : read name = writeText s) : textOr read name [] = s := by
  rw [writeText, writeIf] at h
  split at h
  · rename_i hs
    rw [textOr, getString_string h]
    exact if_pos hs
  · rename_i hs
    rw [textOr, getString_none h, Classical.not_not.1 hs]

theorem flagOr_flag (h : read name = some (flag b)) : flagOr read name 1 old = b := by
  rw [flagOr, getInteger_integer h]
  cases b with
  | false => rfl
  | true => rfl

theorem flagOr_not (h : read name = some (flag !b)) : flagOr read name 0 old = b := by
  rw [flagOr, getInteger_integer h]
  cases b with
  | false => rfl
  | true => rfl

theorem flagOr_writeIf (h : read name = writeIf (b = true) (.integer 1)) :
    flagOr read name 1 false = b := by
  rw [flagOr]
  cases b with
  | false => rw [getInteger_none h]; rfl
  | true => rw [getInteger_integer h]; rfl

end Values

/-! ## Hosts and ports -/

section Hosts

variable {host s : CodeUnits} {port : Int32}

/-- A host in brackets. -/
def Bracketed (host : CodeUnits) : Prop :=
  host.head? = some 0x5B ∧ host.getLast? = some 0x5D

/-- A host that is the same behind its line: not in brackets, and with no colon behind the last
bracket, unless a port is written behind it. -/
def AddressKept (host : CodeUnits) (port : Int32) : Prop :=
  ¬ Bracketed host ∧
    (port = 3389 → indexOr (lastIndexOf 0x3A host) ≤ indexOr (lastIndexOf 0x5D host))

/-- A gateway that is the same behind its line: a host, when a port is written, and no number behind
a colon in it, when none is. -/
def GatewayKept (host : CodeUnits) (port : Int32) : Prop :=
  (port ≠ 443 → host ≠ []) ∧
    (port = 443 → ∀ a b, host = a ++ 0x3A :: b → a ≠ [] → 0x3A ∉ b → parseInt b = none)

theorem not_colon_intText (n : Int32) : 0x3A ∉ intText n :=
  not_mem_intText (by decide) (by decide)

theorem indexOr_lastIndexOf_lt (u : UInt16) (s : CodeUnits) :
    indexOr (lastIndexOf u s) < s.length := by
  rcases lastIndexOf_cases u s with ⟨-, hnone⟩ | ⟨a, b, rfl, -, hlast⟩
  · rw [hnone]
    exact lt_of_lt_of_le (by decide : (-1 : ℤ) < 0) (Int.natCast_nonneg _)
  · rw [hlast, length_append, length_cons]
    show (a.length : ℤ) < _
    omega

/-- A bracket in front of a colon with a number behind it. -/
theorem lastIndexOf_bracket_lt (host : CodeUnits) (port : Int32) :
    indexOr (lastIndexOf 0x5D (host ++ 0x3A :: intText port)) < host.length := by
  rcases lastIndexOf_cases 0x5D (host ++ 0x3A :: intText port) with
    ⟨-, hnone⟩ | ⟨a, b, heq, hb, hlast⟩
  · rw [hnone]
    exact lt_of_lt_of_le (by decide : (-1 : ℤ) < 0) (Int.natCast_nonneg _)
  · rw [hlast]
    show (a.length : ℤ) < host.length
    rcases append_eq_append_iff.1 heq with ⟨c, rfl, hrest⟩ | ⟨c, hc, hrest⟩
    · have hmem : (0x5D : UInt16) ∈ (0x3A :: intText port : CodeUnits) := by
        rw [hrest]
        exact mem_append_right _ mem_cons_self
      rcases mem_cons.1 hmem with hu | hmem
      · exact absurd hu (by decide)
      · exact absurd hmem (not_mem_intText (by decide) (by decide))
    · cases c with
      | nil =>
        obtain ⟨hu, -⟩ := List.cons.inj hrest
        exact absurd hu (by decide)
      | cons u c =>
        rw [hc, length_append, length_cons]
        omega

theorem unbracket_eq_self (h : ¬ Bracketed s) : unbracket s = s := if_neg h

theorem length_unbracket_lt (h : Bracketed s) : (unbracket s).length < s.length := by
  have hcut : unbracket s = s.tail.dropLast := if_pos h
  obtain ⟨t, rfl⟩ := head?_eq_some_iff.1 h.1
  rw [hcut, length_dropLast, tail_cons, length_cons]
  omega

theorem length_unbracket_le (s : CodeUnits) : (unbracket s).length ≤ s.length := by
  by_cases h : Bracketed s
  · exact (length_unbracket_lt h).le
  · rw [unbracket_eq_self h]

theorem unbracket_eq_self_iff : unbracket s = s ↔ ¬ Bracketed s := by
  refine ⟨fun heq h => ?_, unbracket_eq_self⟩
  have hlt := length_unbracket_lt h
  rw [heq] at hlt
  exact Nat.lt_irrefl _ hlt

theorem lastIndexOf_port (host : CodeUnits) (port : Int32) :
    indexOr (lastIndexOf 0x3A (host ++ 0x3A :: intText port)) = host.length := by
  rw [lastIndexOf_append_cons (not_colon_intText port)]
  rfl

/-- **The address of a host with a port.** -/
theorem readAddress_port (host : CodeUnits) (port : Int32) :
    readAddress (host ++ 0x3A :: intText port) = (some port, unbracket host) := by
  rw [readAddress, lastIndexOf_port, if_pos (lastIndexOf_bracket_lt host port), Int.toNat_natCast,
    drop_behind, take_left, parseInt_intText]

/-- **A host and its port survive their line** exactly when the line keeps them. -/
theorem readAddress_hostPort_iff (host : CodeUnits) (port : Int32) :
    ((readAddress (hostPort 3389 host port)).2 = host ∧
        (readAddress (hostPort 3389 host port)).1.getD 3389 = port) ↔ AddressKept host port := by
  rw [hostPort, AddressKept]
  by_cases hport : port = 3389
  · rw [if_neg (not_not.2 hport), readAddress]
    by_cases hcolon : indexOr (lastIndexOf 0x3A host) > indexOr (lastIndexOf 0x5D host)
    · rw [if_pos hcolon]
      refine iff_of_false (fun h => ?_) fun h => absurd (h.2 hport) (Int.not_le.2 hcolon)
      have hshort := length_unbracket_le
        (host.take (indexOr (lastIndexOf 0x3A host)).toNat)
      have hhost : unbracket (host.take (indexOr (lastIndexOf 0x3A host)).toNat) = host := h.1
      rw [hhost, length_take] at hshort
      -- what is left of the host is shorter, with or without brackets
      have hlt := indexOr_lastIndexOf_lt 0x3A host
      have hlow : -1 ≤ indexOr (lastIndexOf 0x5D host) := by
        rcases lastIndexOf 0x5D host with _ | k
        · exact Int.le_refl _
        · exact Int.le_trans (by decide) (Int.natCast_nonneg k)
      omega
    · rw [if_neg hcolon]
      constructor
      · exact fun h => ⟨unbracket_eq_self_iff.1 h.1, fun _ => Int.not_lt.1 hcolon⟩
      · exact fun h => ⟨unbracket_eq_self h.1, hport.symm⟩
  · rw [if_pos hport, readAddress_port]
    constructor
    · exact fun h => ⟨unbracket_eq_self_iff.1 h.1, fun heq => absurd heq hport⟩
    · exact fun h => ⟨unbracket_eq_self h.1, rfl⟩

/-- A gateway's text as `importFrom` takes it over. -/
theorem readGateway_port (hhost : host ≠ []) (port : Int32) :
    readGateway (host ++ 0x3A :: intText port) = ⟨host, port⟩ := by
  have hpos := length_pos_of_ne_nil hhost
  rw [readGateway, lastIndexOf_port, if_pos (by omega), Int.toNat_natCast, drop_behind,
    take_left, parseInt_intText]

/-- A gateway whose host is not empty, without a port. -/
theorem readGateway_host_iff (host : CodeUnits) :
    readGateway host = ⟨host, 443⟩ ↔
      ∀ a b, host = a ++ 0x3A :: b → a ≠ [] → 0x3A ∉ b → parseInt b = none := by
  rcases lastIndexOf_cases 0x3A host with ⟨hnot, hnone⟩ | ⟨a, b, rfl, hb, hlast⟩
  · refine iff_of_true ?_ fun a b heq => ?_
    · rw [readGateway, hnone]
      rfl
    · rw [heq] at hnot
      exact absurd (mem_append_right a mem_cons_self) hnot
  · have hcolon : indexOr (some a.length) = a.length := rfl
    rw [readGateway, hlast, hcolon, Int.toNat_natCast, drop_behind, take_left]
    have honly : ∀ a' b', a ++ 0x3A :: b = a' ++ 0x3A :: b' → 0x3A ∉ b' → a = a' ∧ b = b' :=
      fun a' b' heq hb' => WorkerText.append_cons_inj_right hb hb' heq
    by_cases ha : a = []
    · rw [if_neg (by rw [ha]; decide)]
      refine iff_of_true rfl fun a' b' heq hne hb' => ?_
      obtain ⟨rfl, -⟩ := honly a' b' heq hb'
      exact absurd ha hne
    · have hpos := length_pos_of_ne_nil ha
      rw [if_pos (by omega)]
      cases hparse : parseInt b with
      | none =>
        refine iff_of_true rfl fun a' b' heq _ hb' => ?_
        obtain ⟨-, rfl⟩ := honly a' b' heq hb'
        exact hparse
      | some port =>
        apply iff_of_false
        · intro h
          have hhost := congrArg (List.length ∘ GatewaySettings.hostname) h
          simp at hhost
        · intro h
          exact absurd (hparse.symm.trans (h a b rfl ha hb)) (Option.some_ne_none port)

theorem readGateway_noHost (port : Int32) :
    readGateway (0x3A :: intText port) = ⟨0x3A :: intText port, 443⟩ := by
  have hcolon : indexOr (lastIndexOf 0x3A (0x3A :: intText port)) = 0 := lastIndexOf_port [] port
  rw [readGateway, hcolon]
  rfl

/-- **A gateway survives its line** exactly when the line keeps it. -/
theorem readGateway_hostPort_iff (host : CodeUnits) (port : Int32) :
    (if hostPort 443 host port ≠ [] then readGateway (hostPort 443 host port) else ⟨[], 443⟩) =
      (⟨host, port⟩ : GatewaySettings) ↔ GatewayKept host port := by
  rw [hostPort, GatewayKept]
  by_cases hport : port = 443
  · subst hport
    rw [if_neg (not_not.2 rfl)]
    by_cases hhost : host = []
    · subst hhost
      rw [if_neg (not_not.2 rfl)]
      refine iff_of_true rfl ⟨fun h => absurd rfl h, fun _ a b heq => ?_⟩
      exact absurd heq.symm (append_ne_nil_of_right_ne_nil _ (cons_ne_nil _ _))
    · rw [if_pos hhost, readGateway_host_iff]
      exact ⟨fun h => ⟨fun hne => absurd rfl hne, fun _ => h⟩, fun h => h.2 rfl⟩
  · rw [if_pos hport, if_pos (append_ne_nil_of_right_ne_nil _ (cons_ne_nil _ _))]
    by_cases hhost : host = []
    · subst hhost
      apply iff_of_false
      · rw [nil_append, readGateway_noHost]
        exact fun heq => hport (GatewaySettings.mk.inj heq).2.symm
      · exact fun h => h.1 hport rfl
    · rw [readGateway_port hhost]
      exact iff_of_true rfl ⟨fun _ => hhost, fun heq => absurd heq hport⟩

end Hosts

/-! ## The file of a bookmark -/

/-- The texts of a bookmark. -/
def BookmarkBase.texts (bookmark : BookmarkBase) : List CodeUnits :=
  [bookmark.hostname, bookmark.username, bookmark.domain, bookmark.gatewaySettings.hostname,
    bookmark.advancedSettings.loadBalanceInfo, bookmark.advancedSettings.remoteProgram,
    bookmark.advancedSettings.alternateShell, bookmark.advancedSettings.workDir,
    bookmark.advancedSettings.vmConnectGuid]

/-- A bookmark that has every setting that is exported for another: the size only where it is
custom, the gateway and the identifier only where they are enabled. -/
structure Reproduces (bookmark imported : BookmarkBase) : Prop where
  hostname : imported.hostname = bookmark.hostname
  port : imported.port = bookmark.port
  username : imported.username = bookmark.username
  domain : imported.domain = bookmark.domain
  size : bookmark.screenSettings.resolution = ScreenSettings.custom →
    imported.screenSettings.resolution = ScreenSettings.custom ∧
      imported.screenSettings.getWidth = bookmark.screenSettings.getWidth ∧
      imported.screenSettings.getHeight = bookmark.screenSettings.getHeight
  colors : imported.screenSettings.getColors = bookmark.screenSettings.getColors
  performance : imported.performanceFlags = bookmark.performanceFlags
  console : imported.advancedSettings.consoleMode = bookmark.advancedSettings.consoleMode
  sound : imported.advancedSettings.getRedirectSound = bookmark.advancedSettings.getRedirectSound
  microphone : imported.advancedSettings.redirectMicrophone =
    bookmark.advancedSettings.redirectMicrophone
  loadBalance : imported.advancedSettings.loadBalanceInfo =
    bookmark.advancedSettings.loadBalanceInfo
  program : imported.advancedSettings.remoteProgram = bookmark.advancedSettings.remoteProgram
  shell : imported.advancedSettings.alternateShell = bookmark.advancedSettings.alternateShell
  workDir : imported.advancedSettings.workDir = bookmark.advancedSettings.workDir
  printer : imported.advancedSettings.redirectPrinter = bookmark.advancedSettings.redirectPrinter
  gatewayEnabled : imported.enableGatewaySettings = bookmark.enableGatewaySettings
  gateway : bookmark.enableGatewaySettings = true →
    imported.gatewaySettings = bookmark.gatewaySettings
  vmConnectMode : imported.advancedSettings.vmConnectMode = bookmark.advancedSettings.vmConnectMode
  vmConnectGuid : bookmark.advancedSettings.vmConnectMode = true →
    imported.advancedSettings.vmConnectGuid = bookmark.advancedSettings.vmConnectGuid

/-- The names of the lines. -/
def settingNames : List CodeUnits :=
  ["full address", "username", "domain", "desktopwidth", "desktopheight", "session bpp",
    "disable wallpaper", "allow font smoothing", "allow desktop composition",
    "disable menu anims", "disable themes", "disable full window drag", "connect to console",
    "audiomode", "audiocapturemode", "loadbalanceinfo", "remoteapplicationprogram",
    "remoteapplicationmode", "alternate shell", "shell working directory", "gatewayhostname",
    "gatewayusagemethod", "pcb", "redirectprinters"].map lit

section Files

variable {bookmark : BookmarkBase} {read : Options} {value : OptionValue}

theorem map_fst_settings (bookmark : BookmarkBase) :
    (settings bookmark).map Prod.fst = settingNames := rfl

theorem settingNames_nodup : settingNames.Nodup := by decide +kernel

theorem settingNames_plain : ∀ name ∈ settingNames, PlainName name := by decide +kernel

theorem oneLine_some (h : NoLineBreakIn value) : ∀ v ∈ some value, NoLineBreakIn v := by
  intro v hv
  obtain rfl := Option.some.inj hv
  exact h

theorem oneLine_writeIf {written : Prop} [Decidable written] (h : NoLineBreakIn value) :
    ∀ v ∈ writeIf written value, NoLineBreakIn v := by
  intro v hv
  rw [writeIf] at hv
  split at hv
  · exact oneLine_some h v hv
  · exact nomatch hv

theorem noLineBreak_hostPort {host : CodeUnits} (h : NoLineBreak host) (usual port : Int32) :
    NoLineBreak (hostPort usual host port) := by
  rw [hostPort]
  split
  · exact h.colon (noLineBreak_intText port)
  · exact h

/-- The lines of a bookmark fit into a file. -/
theorem writable_settings (h : ∀ s ∈ bookmark.texts, NoLineBreak s) :
    Writable (settings bookmark) := by
  refine ⟨by show 24 ≤ maxLines; decide, ?_, ?_, ?_⟩
  · rw [map_fst_settings]
    exact settingNames_nodup
  · intro setting hsetting
    apply settingNames_plain
    rw [← map_fst_settings bookmark]
    exact mem_map_of_mem hsetting
  · simp only [BookmarkBase.texts, forall_mem_cons] at h
    obtain ⟨hhost, huser, hdomain, hgateway, hinfo, hprogram, hshell, hdir, hguid, -⟩ := h
    simp only [settings, forall_mem_cons]
    refine ⟨oneLine_some (noLineBreak_hostPort hhost _ _), oneLine_writeIf huser,
      oneLine_writeIf hdomain, oneLine_writeIf trivial, oneLine_writeIf trivial,
      oneLine_some trivial, oneLine_some trivial, oneLine_some trivial, oneLine_some trivial,
      oneLine_some trivial, oneLine_some trivial, oneLine_some trivial, oneLine_writeIf trivial,
      oneLine_writeIf trivial, oneLine_writeIf trivial, oneLine_writeIf hinfo,
      oneLine_writeIf hprogram, oneLine_writeIf trivial, oneLine_writeIf hshell,
      oneLine_writeIf hdir, oneLine_writeIf (noLineBreak_hostPort hgateway _ _),
      oneLine_writeIf trivial, oneLine_writeIf hguid, oneLine_writeIf trivial, ?_⟩
    exact fun _ h => nomatch h

/-- The options that the file of a bookmark is read as. -/
structure FileOf (bookmark : BookmarkBase) (read : Options) : Prop where
  written : ∀ setting ∈ settings bookmark, read setting.1 = setting.2
  other : ∀ name, name ∉ settingNames → read name = none

theorem FileOf.line (h : FileOf bookmark read) (i : Fin 24) :
    read ((settings bookmark).get i).1 = ((settings bookmark).get i).2 :=
  h.written _ (get_mem (settings bookmark) i)

theorem parse_toRdpString (lower : LowerCaseTable) (h : ∀ s ∈ bookmark.texts, NoLineBreak s) :
    ∃ read, parse lower (toRdpString bookmark) = some read ∧ FileOf bookmark read := by
  obtain ⟨read, hparse, hwritten, hother⟩ := parse_settings lower (writable_settings h)
  rw [map_fst_settings] at hother
  exact ⟨read, hparse, hwritten, hother⟩

/-! ## Setting by setting -/

theorem importPerformance_eq (h : FileOf bookmark read) (perf : PerformanceFlags) :
    importPerformance read perf = bookmark.performanceFlags := by
  have hwallpaper : read (lit "disable wallpaper") =
    some (flag !bookmark.performanceFlags.wallpaper) := h.line 6
  have hfonts : read (lit "allow font smoothing") =
    some (flag bookmark.performanceFlags.fontSmoothing) := h.line 7
  have hcomposition : read (lit "allow desktop composition") =
    some (flag bookmark.performanceFlags.desktopComposition) := h.line 8
  have hmenu : read (lit "disable menu anims") =
    some (flag !bookmark.performanceFlags.menuAnimations) := h.line 9
  have htheming : read (lit "disable themes") =
    some (flag !bookmark.performanceFlags.theming) := h.line 10
  have hdrag : read (lit "disable full window drag") =
    some (flag !bookmark.performanceFlags.fullWindowDrag) := h.line 11
  rw [importPerformance, flagOr_not hwallpaper, flagOr_flag hfonts, flagOr_flag hcomposition,
    flagOr_not hmenu, flagOr_not htheming, flagOr_not hdrag]

/-- Values that have passed a check pass it again. -/
theorem getColors_eq {screen screen' : ScreenSettings} (h : screen'.colors = screen.getColors) :
    screen'.getColors = screen.getColors := by
  have hvalid : screen.getColors ∈ [32, 24, 16, 15, 8] := by
    show (if screen.colors ∈ [32, 24, 16, 15, 8] then screen.colors else 32) ∈ _
    split
    · assumption
    · decide
  show (if screen'.colors ∈ [32, 24, 16, 15, 8] then screen'.colors else 32) = _
  rw [h]
  exact if_pos hvalid

theorem checked_size (size : Int32) {usual : Int32} (h : 0 < usual ∧ usual ≤ 65536) :
    0 < (if size ≤ 0 ∨ size > 65536 then usual else size) ∧
      ¬ ((if size ≤ 0 ∨ size > 65536 then usual else size) ≤ 0 ∨
        (if size ≤ 0 ∨ size > 65536 then usual else size) > 65536) := by
  have hvalid : 0 < (if size ≤ 0 ∨ size > 65536 then usual else size) ∧
      (if size ≤ 0 ∨ size > 65536 then usual else size) ≤ 65536 := by
    split
    · exact h
    · rename_i hsize
      rw [not_or, gt_iff_lt, Int32.not_lt, Int32.not_le] at hsize
      exact hsize
  exact ⟨hvalid.1, not_or.2 ⟨Int32.not_le.2 hvalid.1, Int32.not_lt.2 hvalid.2⟩⟩

theorem getWidth_pos (screen : ScreenSettings) : 0 < screen.getWidth :=
  (checked_size screen.width (by decide)).1

theorem getHeight_pos (screen : ScreenSettings) : 0 < screen.getHeight :=
  (checked_size screen.height (by decide)).1

theorem getWidth_eq {screen screen' : ScreenSettings} (h : screen'.width = screen.getWidth) :
    screen'.getWidth = screen.getWidth := by
  show (if screen'.width ≤ 0 ∨ screen'.width > 65536 then 1024 else screen'.width) = _
  rw [h]
  exact if_neg (checked_size screen.width (by decide)).2

theorem getHeight_eq {screen screen' : ScreenSettings} (h : screen'.height = screen.getHeight) :
    screen'.getHeight = screen.getHeight := by
  show (if screen'.height ≤ 0 ∨ screen'.height > 65536 then 768 else screen'.height) = _
  rw [h]
  exact if_neg (checked_size screen.height (by decide)).2

theorem importScreen_eq (h : FileOf bookmark read) (screen : ScreenSettings) :
    (importScreen read screen).getColors = bookmark.screenSettings.getColors ∧
      (bookmark.screenSettings.resolution = ScreenSettings.custom →
        (importScreen read screen).resolution = ScreenSettings.custom ∧
          (importScreen read screen).getWidth = bookmark.screenSettings.getWidth ∧
          (importScreen read screen).getHeight = bookmark.screenSettings.getHeight) := by
  have hwidth : read (lit "desktopwidth") =
    writeIf (bookmark.screenSettings.resolution = ScreenSettings.custom)
      (.integer bookmark.screenSettings.getWidth) := h.line 3
  have hheight : read (lit "desktopheight") =
    writeIf (bookmark.screenSettings.resolution = ScreenSettings.custom)
      (.integer bookmark.screenSettings.getHeight) := h.line 4
  have hcolors : read (lit "session bpp") =
    some (.integer bookmark.screenSettings.getColors) := h.line 5
  constructor
  · apply getColors_eq
    rw [importScreen, getInteger_integer hcolors]
    rfl
  · intro hcustom
    rw [writeIf, if_pos hcustom] at hwidth hheight
    have hpos : bookmark.screenSettings.getWidth > 0 ∧ bookmark.screenSettings.getHeight > 0 :=
      ⟨getWidth_pos _, getHeight_pos _⟩
    rw [importScreen, getInteger_integer hwidth, getInteger_integer hheight]
    dsimp only
    rw [if_pos hpos]
    exact ⟨rfl, getWidth_eq rfl, getHeight_eq rfl⟩

theorem getRedirectSound_mem (advanced : AdvancedSettings) :
    advanced.getRedirectSound ∈ [0, 1, 2] := by
  rw [AdvancedSettings.getRedirectSound]
  split
  · assumption
  · decide

theorem getRedirectSound_eq {advanced advanced' : AdvancedSettings}
    (h : advanced'.redirectSound = advanced.getRedirectSound) :
    advanced'.getRedirectSound = advanced.getRedirectSound := by
  rw [AdvancedSettings.getRedirectSound, h]
  exact if_pos (getRedirectSound_mem advanced)

theorem importSound_eq (h : FileOf bookmark read) :
    (importAdvanced read BookmarkBase.fresh.advancedSettings).getRedirectSound =
      bookmark.advancedSettings.getRedirectSound := by
  have hsound : read (lit "audiomode") =
    writeIf (bookmark.advancedSettings.getRedirectSound ≠ 0)
      (.integer bookmark.advancedSettings.getRedirectSound) := h.line 13
  have hvalid := getRedirectSound_mem bookmark.advancedSettings
  apply getRedirectSound_eq
  rw [importAdvanced]
  dsimp only
  rw [writeIf] at hsound
  split at hsound
  · rw [getInteger_integer hsound]
    dsimp only
    rw [if_pos]
    revert hvalid
    generalize bookmark.advancedSettings.getRedirectSound = sound
    intro hvalid
    simp only [mem_cons, not_mem_nil, or_false] at hvalid
    rcases hvalid with rfl | rfl | rfl <;> decide
  · rename_i hzero
    rw [getInteger_none hsound, Classical.not_not.1 hzero]
    rfl

/-- The connection to a virtual machine survives exactly when it has an identifier. -/
theorem importPcb_iff (h : FileOf bookmark read) :
    ((importAdvanced read BookmarkBase.fresh.advancedSettings).vmConnectMode =
        bookmark.advancedSettings.vmConnectMode ∧
      (bookmark.advancedSettings.vmConnectMode = true →
        (importAdvanced read BookmarkBase.fresh.advancedSettings).vmConnectGuid =
          bookmark.advancedSettings.vmConnectGuid)) ↔
    (bookmark.advancedSettings.vmConnectMode = true →
      bookmark.advancedSettings.vmConnectGuid ≠ []) := by
  have hpcb : read (lit "pcb") = writeIf (bookmark.advancedSettings.vmConnectMode = true)
    (.string bookmark.advancedSettings.vmConnectGuid) := h.line 22
  rw [importAdvanced]
  dsimp only
  rw [writeIf] at hpcb
  cases hmode : bookmark.advancedSettings.vmConnectMode with
  | false =>
    rw [hmode, if_neg (by decide)] at hpcb
    rw [getString_none hpcb]
    exact ⟨fun _ h => absurd h (by decide), fun _ => ⟨rfl, fun h => absurd h (by decide)⟩⟩
  | true =>
    rw [hmode, if_pos rfl] at hpcb
    rw [textOr, getString_string hpcb]
    dsimp only
    by_cases hguid : bookmark.advancedSettings.vmConnectGuid = []
    · rw [if_neg (not_not.2 hguid), if_neg (not_not.2 hguid)]
      exact ⟨fun h => absurd h.1 (by decide), fun h => absurd hguid (h rfl)⟩
    · rw [if_pos hguid, if_pos hguid]
      exact ⟨fun _ _ => hguid, fun _ => ⟨rfl, fun _ => rfl⟩⟩

/-- The gateway survives exactly when its line keeps it. -/
theorem importGateway_iff (h : FileOf bookmark read) :
    ((importOptions read .fresh).enableGatewaySettings = bookmark.enableGatewaySettings ∧
      (bookmark.enableGatewaySettings = true →
        (importOptions read .fresh).gatewaySettings = bookmark.gatewaySettings)) ↔
    (bookmark.enableGatewaySettings = true →
      GatewayKept bookmark.gatewaySettings.hostname bookmark.gatewaySettings.port) := by
  have hname : read (lit "gatewayhostname") = writeIf (bookmark.enableGatewaySettings = true)
    (.string (hostPort 443 bookmark.gatewaySettings.hostname bookmark.gatewaySettings.port)) :=
      h.line 20
  have husage : read (lit "gatewayusagemethod") =
    writeIf (bookmark.enableGatewaySettings = true) (.integer 2) := h.line 21
  rw [importOptions]
  dsimp only
  rw [writeIf] at hname husage
  cases henabled : bookmark.enableGatewaySettings with
  | false =>
    rw [henabled, if_neg (by decide)] at hname husage
    rw [getString_none hname, getInteger_none husage]
    exact ⟨fun _ h => absurd h (by decide), fun _ => ⟨rfl, fun h => absurd h (by decide)⟩⟩
  | true =>
    rw [henabled, if_pos rfl] at hname husage
    rw [getString_string hname, getInteger_integer husage]
    dsimp only
    have hiff := readGateway_hostPort_iff bookmark.gatewaySettings.hostname
      bookmark.gatewaySettings.port
    exact ⟨fun h _ => hiff.1 (h.2 rfl), fun h => ⟨rfl, fun henabled => hiff.2 (h henabled)⟩⟩

/-- Host and port survive exactly when their line keeps them. -/
theorem importAddress_iff (h : FileOf bookmark read) :
    ((importOptions read .fresh).hostname = bookmark.hostname ∧
        (importOptions read .fresh).port = bookmark.port) ↔
      AddressKept bookmark.hostname bookmark.port := by
  have haddress : read (lit "full address") =
    some (.string (hostPort 3389 bookmark.hostname bookmark.port)) := h.line 0
  have hport : read (lit "server port") = none := h.other _ (by decide +kernel)
  rw [← readAddress_hostPort_iff, importOptions]
  dsimp only
  rw [getString_string haddress, getInteger_none hport]
  exact Iff.rfl

theorem reproduces_iff (h : FileOf bookmark read) :
    Reproduces bookmark (importOptions read .fresh) ↔
      AddressKept bookmark.hostname bookmark.port ∧
        (bookmark.enableGatewaySettings = true →
          GatewayKept bookmark.gatewaySettings.hostname bookmark.gatewaySettings.port) ∧
        (bookmark.advancedSettings.vmConnectMode = true →
          bookmark.advancedSettings.vmConnectGuid ≠ []) := by
  constructor
  · intro hall
    exact ⟨(importAddress_iff h).1 ⟨hall.hostname, hall.port⟩,
      (importGateway_iff h).1 ⟨hall.gatewayEnabled, hall.gateway⟩,
      (importPcb_iff h).1 ⟨hall.vmConnectMode, hall.vmConnectGuid⟩⟩
  · rintro ⟨haddress, hgateway, hpcb⟩
    obtain ⟨hostname, port⟩ := (importAddress_iff h).2 haddress
    obtain ⟨gatewayEnabled, gateway⟩ := (importGateway_iff h).2 hgateway
    obtain ⟨vmConnectMode, vmConnectGuid⟩ := (importPcb_iff h).2 hpcb
    obtain ⟨colors, size⟩ := importScreen_eq h BookmarkBase.fresh.screenSettings
    have husername : read (lit "username") = writeText bookmark.username := h.line 1
    have hdomain : read (lit "domain") = writeText bookmark.domain := h.line 2
    have hconsole : read (lit "connect to console") =
      writeIf (bookmark.advancedSettings.consoleMode = true) (.integer 1) := h.line 12
    have hmicrophone : read (lit "audiocapturemode") =
      writeIf (bookmark.advancedSettings.redirectMicrophone = true) (.integer 1) := h.line 14
    have hinfo : read (lit "loadbalanceinfo") =
      writeText bookmark.advancedSettings.loadBalanceInfo := h.line 15
    have hprogram : read (lit "remoteapplicationprogram") =
      writeText bookmark.advancedSettings.remoteProgram := h.line 16
    have hshell : read (lit "alternate shell") =
      writeText bookmark.advancedSettings.alternateShell := h.line 18
    have hdir : read (lit "shell working directory") =
      writeText bookmark.advancedSettings.workDir := h.line 19
    have hprinters : read (lit "redirectprinters") =
      writeIf (bookmark.advancedSettings.redirectPrinter = true) (.integer 1) := h.line 23
    have hdisabled : read (lit "disableprinterredirection") = none :=
      h.other _ (by decide +kernel)
    refine ⟨hostname, port, getD_writeText husername, getD_writeText hdomain, size, colors,
      importPerformance_eq h _, flagOr_writeIf hconsole, importSound_eq h,
      flagOr_writeIf hmicrophone, textOr_writeText hinfo, textOr_writeText hprogram,
      textOr_writeText hshell, textOr_writeText hdir, ?_, gatewayEnabled, gateway, vmConnectMode,
      vmConnectGuid⟩
    show flagOr read (lit "disableprinterredirection") 0
      (flagOr read (lit "redirectprinters") 1 false) = _
    rw [flagOr_writeIf hprinters, flagOr, getInteger_none hdisabled]
    rfl

/-- **The file of a bookmark is read as the bookmark** exactly when the lines of the address and of
the gateway keep what they are written for, and the connection to a virtual machine has an
identifier. -/
theorem export_read_iff (lower : LowerCaseTable) (bookmark : BookmarkBase)
    (h : ∀ s ∈ bookmark.texts, NoLineBreak s) :
    (∃ imported, importFrom lower (toRdpString bookmark) .fresh = some imported ∧
        Reproduces bookmark imported) ↔
      AddressKept bookmark.hostname bookmark.port ∧
        (bookmark.enableGatewaySettings = true →
          GatewayKept bookmark.gatewaySettings.hostname bookmark.gatewaySettings.port) ∧
        (bookmark.advancedSettings.vmConnectMode = true →
          bookmark.advancedSettings.vmConnectGuid ≠ []) := by
  obtain ⟨read, hparse, hfile⟩ := parse_toRdpString lower h
  have himport : importFrom lower (toRdpString bookmark) .fresh =
      some (importOptions read .fresh) := by
    rw [importFrom, hparse]
    rfl
  rw [← reproduces_iff hfile, himport]
  constructor
  · rintro ⟨imported, himported, hall⟩
    rwa [← Option.some.inj himported] at hall
  · exact fun hall => ⟨_, rfl, hall⟩

/-- A host with a port of its own. -/
theorem export_read_port :
    ∃ imported,
      importFrom .ofAscii
          (toRdpString { BookmarkBase.fresh with hostname := lit "pc", port := 3390 }) .fresh =
        some imported ∧
      Reproduces { BookmarkBase.fresh with hostname := lit "pc", port := 3390 } imported :=
  (export_read_iff .ofAscii { BookmarkBase.fresh with hostname := lit "pc", port := 3390 }
    (by decide)).2
    ⟨⟨fun h => absurd h.1 (by decide), fun h => absurd h (by decide)⟩,
      fun h => absurd h (by decide), fun h => absurd h (by decide)⟩

/-- The address of the machine itself is taken for a host with a port. -/
theorem export_loses_address :
    (∀ s ∈ ({ BookmarkBase.fresh with hostname := lit "::1" } : BookmarkBase).texts,
      NoLineBreak s) ∧
    ¬ ∃ imported,
      importFrom .ofAscii (toRdpString { BookmarkBase.fresh with hostname := lit "::1" }) .fresh =
        some imported ∧
      Reproduces { BookmarkBase.fresh with hostname := lit "::1" } imported := by
  have hlines : ∀ s ∈ ({ BookmarkBase.fresh with hostname := lit "::1" } : BookmarkBase).texts,
      NoLineBreak s := by decide
  refine ⟨hlines, ?_⟩
  rintro ⟨imported, himport, hall⟩
  obtain ⟨read, hparse, hfile⟩ := parse_toRdpString .ofAscii hlines
  rw [importFrom, hparse] at himport
  obtain rfl := Option.some.inj himport
  have hkept := ((reproduces_iff hfile).1 hall).1.2 rfl
  exact absurd hkept (by decide)

end Files

end RDPFileHelper
