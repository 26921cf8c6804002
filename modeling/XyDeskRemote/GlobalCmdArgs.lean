/-
# The options of the RDP core

`global_cmd_args`, the table that the command line of the core is read against: the names
of the options, their aliases and what values they take.  Some options are there in some
builds only.

`parse_host_options` interprets the option for the server.
-/
import XyDeskRemote.CommandLine

namespace CommandLine

open WorkerText (lit)

/-! ## The table -/

/-- What a build may define. -/
inductive BuildOption where
  | deprecatedCommandline
  | win32
  | gfxH264
  | jpeg
  | tsmfChannel
  | parallelChannel
  | without3xDeprecated
  | rdpearChannel
  | serialChannel
  | urbdrcChannel
  deriving DecidableEq

/-- An option, and what the build has to define, or not, for it to be there. -/
structure CmdArg where
  conditions : List (BuildOption × Bool)
  arg : CommandLineArgument
  deriving DecidableEq

/-- An option of some builds. -/
def onlyWith (conditions : List (BuildOption × Bool)) (name : String) (flags : List Flag)
    (aliasName : Option String := none) : CmdArg :=
  ⟨conditions, { name, flags, aliasName }⟩

/-- An option of every build. -/
def always (name : String) (flags : List Flag) (aliasName : Option String := none) : CmdArg :=
  onlyWith [] name flags aliasName

/-- An option of builds with deprecated ones. -/
def deprecated (name : String) (flags : List Flag) (aliasName : Option String := none) :
    CmdArg :=
  onlyWith [(.deprecatedCommandline, true)] name flags aliasName

/-- The rows of the table. -/
def cmdArgs : List CmdArg := [
  always "a" [.valueRequired] (some "addin"),
  always "azure" [.valueRequired],
  always "action-script" [.valueRequired],
  always "admin" [.valueFlag] (some "console"),
  always "aero" [.valueBool],
  always "app" [.valueRequired],
  deprecated "app-cmd" [.valueRequired],
  deprecated "app-file" [.valueRequired],
  deprecated "app-guid" [.valueRequired],
  deprecated "app-icon" [.valueRequired],
  deprecated "app-name" [.valueRequired],
  deprecated "app-workdir" [.valueRequired],
  always "assistance" [.valueRequired],
  always "auto-request-control" [.valueFlag],
  always "async-channels" [.valueBool],
  always "async-update" [.valueBool],
  always "audio-mode" [.valueRequired],
  always "auth-only" [.valueBool],
  always "auth-pkg-list" [.valueRequired],
  always "authentication" [.valueBool],
  always "auto-reconnect" [.valueBool],
  always "auto-reconnect-max-retries" [.valueRequired],
  deprecated "bitmap-cache" [.valueBool],
  deprecated "persist-cache" [.valueBool],
  deprecated "persist-cache-file" [.valueRequired],
  always "bpp" [.valueRequired],
  always "buildconfig" [.valueFlag, .printBuildconfig],
  always "cache" [.valueRequired],
  always "cert" [.valueRequired],
  deprecated "cert-deny" [.valueFlag],
  deprecated "cert-ignore" [.valueFlag],
  deprecated "cert-name" [.valueRequired],
  deprecated "cert-tofu" [.valueFlag],
  onlyWith [(.win32, true)] "connect-child-session" [.valueBool] (some ""),
  always "client-build-number" [.valueRequired],
  always "client-hostname" [.valueRequired],
  always "clipboard" [.valueBool, .valueOptional],
  deprecated "codec-cache" [.valueRequired],
  always "compression" [.valueBool] (some "z"),
  always "compression-level" [.valueRequired],
  always "credentials-delegation" [.valueBool],
  always "d" [.valueRequired],
  always "decorations" [.valueBool],
  always "disp" [.valueFlag],
  always "drive" [.valueRequired],
  always "drives" [.valueBool],
  always "dump" [.valueRequired],
  always "dvc" [.valueRequired],
  always "dynamic-resolution" [.valueBool],
  always "echo" [.valueFlag] (some "echo"),
  always "encryption" [.valueBool],
  always "encryption-methods" [.valueRequired],
  always "endpointfedauth" [.valueRequired],
  always "f" [.valueFlag],
  always "fipsmode" [.valueBool],
  always "floatbar" [.valueOptional],
  always "fonts" [.valueBool],
  always "force-console-callbacks" [.valueBool],
  always "frame-ack" [.valueRequired],
  always "args-from" [.valueRequired],
  always "from-stdin" [.valueOptional],
  always "gateway" [.valueRequired] (some "gw"),
  deprecated "g" [.valueRequired],
  deprecated "gateway-usage-method" [.valueRequired] (some "gum"),
  deprecated "gd" [.valueRequired],
  always "gdi" [.valueRequired],
  always "geometry" [.valueFlag],
  always "gestures" [.valueBool],
  onlyWith [(.gfxH264, true)] "gfx" [.valueOptional],
  onlyWith [(.gfxH264, true), (.deprecatedCommandline, true)] "gfx-h264" [.valueOptional],
  onlyWith [(.gfxH264, false)] "gfx" [.valueOptional],
  deprecated "gfx-progressive" [.valueBool],
  deprecated "gfx-small-cache" [.valueBool],
  deprecated "gfx-thin-client" [.valueBool],
  deprecated "glyph-cache" [.valueBool],
  deprecated "gp" [.valueRequired],
  always "grab-keyboard" [.valueBool],
  always "grab-mouse" [.valueBool],
  deprecated "gt" [.valueRequired],
  deprecated "gu" [.valueRequired],
  deprecated "gat" [.valueRequired],
  always "h" [.valueRequired],
  always "heartbeat" [.valueBool],
  always "help" [.valueFlag, .printHelp] (some "?"),
  always "home-drive" [.valueBool],
  always "ipv4" [.valueOptional] (some "4"),
  always "ipv6" [.valueOptional] (some "6"),
  onlyWith [(.jpeg, true)] "jpeg" [.valueFlag],
  onlyWith [(.jpeg, true)] "jpeg-quality" [.valueRequired],
  always "kbd" [.valueRequired],
  deprecated "kbd-lang" [.valueRequired],
  deprecated "kbd-fn-key" [.valueRequired],
  deprecated "kbd-list" [.valueFlag, .print],
  deprecated "kbd-scancode-list" [.valueFlag, .print],
  deprecated "kbd-lang-list" [.valueOptional, .print],
  deprecated "kbd-remap" [.valueRequired],
  deprecated "kbd-subtype" [.valueRequired],
  deprecated "kbd-type" [.valueRequired],
  deprecated "kbd-unicode" [.valueFlag],
  always "kerberos" [.valueRequired],
  always "load-balance-info" [.valueRequired],
  always "list" [.valueRequired, .print],
  always "log-filters" [.valueRequired],
  always "log-level" [.valueRequired],
  always "max-fast-path-size" [.valueRequired],
  always "max-loop-time" [.valueRequired],
  always "menu-anims" [.valueBool],
  always "microphone" [.valueOptional] (some "mic"),
  deprecated "smartcard-list" [.valueFlag, .print],
  deprecated "monitor-list" [.valueFlag, .print],
  always "monitors" [.valueRequired],
  always "mouse-motion" [.valueBool],
  always "mouse-relative" [.valueBool],
  always "mouse" [.valueRequired],
  onlyWith [(.tsmfChannel, true)] "multimedia" [.valueOptional] (some "mmr"),
  always "multimon" [.valueBool, .valueOptional],
  always "multitouch" [.valueBool],
  always "multitransport" [.valueBool],
  always "nego" [.valueBool],
  always "network" [.valueRequired],
  always "nsc" [.valueFlag] (some "nscodec"),
  deprecated "offscreen-cache" [.valueBool],
  always "orientation" [.valueRequired],
  always "old-license" [.valueBool],
  always "p" [.valueOptional],
  onlyWith [(.parallelChannel, true)] "parallel" [.valueOptional],
  always "parent-window" [.valueRequired],
  always "pcb" [.valueRequired],
  always "pcid" [.valueRequired],
  always "pheight" [.valueRequired],
  always "play-rfx" [.valueRequired],
  always "port" [.valueRequired],
  always "suppress-output" [.valueBool],
  always "print-reconnect-cookie" [.valueBool],
  always "printer" [.valueOptional],
  always "proxy" [.valueRequired],
  always "pth" [.valueRequired] (some "pass-the-hash"),
  always "pwidth" [.valueRequired],
  onlyWith [(.without3xDeprecated, false)] "rdp2tcp" [.valueRequired],
  always "reconnect-cookie" [.valueRequired],
  always "redirect-prefer" [.valueRequired],
  always "relax-order-checks" [.valueFlag] (some "relax-order-checks"),
  always "restricted-admin" [.valueFlag] (some "restrictedAdmin"),
  onlyWith [(.rdpearChannel, true)] "remoteGuard" [.valueFlag] (some "remoteGuard"),
  always "rfx" [.valueFlag],
  always "rfx-mode" [.valueRequired],
  always "scale" [.valueRequired],
  always "scale-desktop" [.valueRequired],
  always "scale-device" [.valueRequired],
  always "sec" [.valueRequired],
  deprecated "sec-ext" [.valueBool],
  deprecated "sec-nla" [.valueBool],
  deprecated "sec-rdp" [.valueBool],
  deprecated "sec-tls" [.valueBool],
  onlyWith [(.serialChannel, true)] "serial" [.valueOptional] (some "tty"),
  always "server-name" [.valueRequired],
  always "shell" [.valueRequired],
  always "shell-dir" [.valueRequired],
  always "size" [.valueRequired],
  always "smart-sizing" [.valueBool, .valueOptional],
  always "smartcard" [.valueOptional],
  always "smartcard-logon" [.valueOptional],
  always "sound" [.valueOptional] (some "audio"),
  always "span" [.valueFlag],
  always "spn-class" [.valueRequired],
  always "ssh-agent" [.valueFlag] (some "ssh-agent"),
  always "sspi-module" [.valueRequired],
  always "winscard-module" [.valueRequired],
  always "disable-output" [.valueFlag],
  always "t" [.valueRequired] (some "title"),
  always "themes" [.valueBool],
  always "timeout" [.valueRequired] (some "timeout"),
  always "timezone" [.valueRequired],
  always "tls" [.valueRequired],
  deprecated "tls-ciphers" [.valueRequired],
  deprecated "tls-seclevel" [.valueRequired],
  deprecated "tls-secrets-file" [.valueRequired],
  deprecated "enforce-tlsv1_2" [.valueBool],
  always "toggle-fullscreen" [.valueBool],
  always "tune" [.valueRequired],
  deprecated "tune-list" [.valueFlag, .print],
  always "u" [.valueRequired],
  always "unmap-buttons" [.valueBool],
  onlyWith [(.urbdrcChannel, true)] "usb" [.valueRequired],
  always "v" [.valueRequired],
  always "vc" [.valueRequired],
  always "version" [.valueFlag, .printVersion],
  always "video" [.valueFlag],
  always "prevent-session-lock" [.valueOptional],
  always "vmconnect" [.valueOptional],
  always "w" [.valueRequired],
  always "wallpaper" [.valueBool],
  always "window-drag" [.valueBool],
  always "window-position" [.valueRequired],
  always "wm-class" [.valueRequired],
  always "workarea" [.valueFlag]]

/-- `global_cmd_args` of a build. -/
def globalCmdArgs (build : BuildOption → Bool) : List CommandLineArgument :=
  (cmdArgs.filter fun row => row.conditions.all fun (option, defined) =>
    build option = defined).map (·.arg)

/-! ## Looking up an option -/

section Lookup

variable {build : BuildOption → Bool} {keyword : CodeUnits} {cur : CommandLineArgument}

theorem mem_globalCmdArgs :
    cur ∈ globalCmdArgs build ↔ ∃ row ∈ cmdArgs, (∀ c ∈ row.conditions, build c.1 = c.2) ∧
      row.arg = cur := by
  rw [globalCmdArgs, List.mem_map]
  constructor
  · rintro ⟨row, hrow, rfl⟩
    obtain ⟨hmem, hall⟩ := List.mem_filter.1 hrow
    exact ⟨row, hmem, fun c hc => of_decide_eq_true (List.all_eq_true.1 hall c hc), rfl⟩
  · rintro ⟨row, hrow, hall, rfl⟩
    refine ⟨row, List.mem_filter.2 ⟨hrow, ?_⟩, rfl⟩
    exact List.all_eq_true.2 fun c hc => decide_eq_true (hall c hc)

theorem globalCmdArgs_forall {P : CommandLineArgument → Prop}
    (h : ∀ row ∈ cmdArgs, row.arg.matchesKeyword keyword = true → P row.arg)
    (hcur : cur ∈ globalCmdArgs build) (hmatch : cur.matchesKeyword keyword = true) : P cur := by
  obtain ⟨row, hrow, -, rfl⟩ := mem_globalCmdArgs.1 hcur
  exact h row hrow hmatch

theorem find_globalCmdArgs (hrow : ∃ row ∈ cmdArgs, row.conditions = [] ∧ row.arg = cur)
    (hmatch : cur.matchesKeyword keyword = true)
    (hunique : ∀ row ∈ cmdArgs, row.arg.matchesKeyword keyword = true → row.arg = cur) :
    (globalCmdArgs build).find? (·.matchesKeyword keyword) = some cur := by
  obtain ⟨row, hmem, hconditions, rfl⟩ := hrow
  have hthere : row.arg ∈ globalCmdArgs build := by
    refine mem_globalCmdArgs.2 ⟨row, hmem, fun c hc => ?_, rfl⟩
    rw [hconditions] at hc
    exact absurd hc List.not_mem_nil
  cases hfind : (globalCmdArgs build).find? (·.matchesKeyword keyword) with
  | none => exact absurd hmatch (List.find?_eq_none.1 hfind row.arg hthere)
  | some found =>
    have hfound := List.find?_some
      (p := fun cur : CommandLineArgument => cur.matchesKeyword keyword) hfind
    have hsame : found = row.arg :=
      globalCmdArgs_forall (P := (· = row.arg)) hunique (List.mem_of_find?_eq_some hfind) hfound
    rw [hsame]

end Lookup

/-! ## The server -/

/-- `strstr(value, "://")`. -/
def findScheme (value : CodeUnits) : Option Nat :=
  (List.range value.length).find? fun i => (lit "://").isPrefixOf (value.drop i)

/-- `parse_host_options`: the host name of the server and its port, when there is one. -/
def parseHostOptions (value : CodeUnits) : Option (CodeUnits × Option Nat) :=
  match value.idxOf? 0x5B with
  | none =>
    let start := (findScheme value).elim 0 (· + 3)
    match (value.drop start).idxOf? 0x3A with
    | some i =>
      (valueToInt (value.drop (start + i + 1)) 1 65535).map fun port =>
        (value.take (start + i), some port.toNat)
    | none => some (value, none)
  | some opening =>
    (value.idxOf? 0x5D).bind fun closing =>
      let name := value.drop (opening + 1)
      -- the length of a name in front of its bracket wraps around: the whole rest
      let name := if closing < opening then name else name.take (closing - opening - 1)
      if value[closing + 1]? = some 0x3A then
        (valueToInt (value.drop (closing + 2)) 0 65535).map fun port =>
          (name, some port.toNat)
      else some (name, none)

end CommandLine
