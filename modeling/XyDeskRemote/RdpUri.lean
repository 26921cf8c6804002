/-
# The connection URI

The client hands a connection over to the RDP core as a URI: the host, the port and a plain
user name are its authority, everything else is query parameters.  `setConnectionInfo` turns
that into the argument vector of the core's command line: `key=` is `/key`, `key=+` and
`key=-` are `+key` and `-key`, and `key=value` is `/key:value`.

A query parameter is decoded to what was encoded, so a URI is its authority and its
parameters; the parts of an authority are what `UriParser` says they are.
-/
import XyDeskRemote.GlobalCmdArgs

open List

namespace RdpUri

open WorkerText (lit)
open KotlinText CommandLine

/-! ## The profile -/

/-- Where to connect and as whom, in code units; the checks of `init` are its fields. -/
structure ConnectionProfile where
  host : CodeUnits
  port : Int
  username : Option CodeUnits
  password : Option CodeUnits
  domain : Option CodeUnits
  notBlank : isBlank host = false
  inRange : 1 ≤ port ∧ port ≤ 65535

/-- `profile.copy(..)`: `none` when a check of `init` throws. -/
def ConnectionProfile.copy (profile : ConnectionProfile) (host : CodeUnits) (port : Int)
    (username domain : Option CodeUnits) : Option ConnectionProfile :=
  if hhost : isBlank host = false then
    if hport : 1 ≤ port ∧ port ≤ 65535 then
      some ⟨host, port, username, profile.password, domain, hhost, hport⟩
    else none
  else none

/-- The port of RDP is one that a profile can have. -/
theorem rdpPort_inRange : (1 : Int) ≤ 3389 ∧ (3389 : Int) ≤ 65535 := by decide

/-- A copy has the values it was asked for. -/
theorem ConnectionProfile.copy_eq_some_iff {profile norm : ConnectionProfile}
    {host : CodeUnits} {port : Int} {username domain : Option CodeUnits} :
    profile.copy host port username domain = some norm ↔
      norm.host = host ∧ norm.port = port ∧ norm.username = username ∧
        norm.password = profile.password ∧ norm.domain = domain := by
  rw [copy, Option.dite_none_right_eq_some]
  simp only [Option.dite_none_right_eq_some]
  constructor
  · rintro ⟨_, _, h⟩
    rw [← Option.some.inj h]
    exact ⟨rfl, rfl, rfl, rfl, rfl⟩
  · rintro ⟨rfl, rfl, rfl, hpassword, rfl⟩
    exact ⟨norm.notBlank, norm.inRange, by rw [← hpassword]⟩

/-- `s.removePrefix(start)`. -/
def removeStart (start : String) (s : CodeUnits) : CodeUnits :=
  if (lit start).isPrefixOf s then s.drop (lit start).length else s

/-- `s.indexOf(text)`. -/
def indexOfText (text : String) (s : CodeUnits) : Option Nat :=
  (range s.length).find? fun i => (lit text).isPrefixOf (s.drop i)

/-- `s?.trim()?.takeIf { it.isNotEmpty() }`. -/
def trimmed (s : Option CodeUnits) : Option CodeUnits := (s.map trim).filter fun t => t ≠ []

/-- The host and the port that were typed together. -/
def takePort (rawHost : CodeUnits) (port : Int) (maybeHost maybePort : CodeUnits) :
    CodeUnits × Int :=
  match toIntOrNull (trim maybePort) with
  | some typed =>
    if trim maybeHost ≠ [] ∧ 1 ≤ typed ∧ typed ≤ 65535 then
      (trim maybeHost, if port = 3389 then typed else port)
    else (rawHost, port)
  | none => (rawHost, port)

/-- `host:port` and `[host]:port`. -/
def resolveHost (rawHost : CodeUnits) (port : Int) : CodeUnits × Int :=
  if rawHost.head? ≠ some 0x5B ∧ rawHost.count 0x3A = 1 then
    match lastIndexOf 0x3A rawHost with
    | some idx => takePort rawHost port (rawHost.take idx) (rawHost.drop (idx + 1))
    | none => (rawHost, port)
  else if rawHost.head? = some 0x5B then
    match indexOfText "]:" rawHost with
    | some closeIdx =>
      takePort rawHost port ((rawHost.take closeIdx).drop 1) (rawHost.drop (closeIdx + 2))
    | none => (rawHost, port)
  else (rawHost, port)

/-- `DOMAIN\username` and `.\username`, when there is no domain. -/
def resolveUser (user domain : Option CodeUnits) : Option CodeUnits × Option CodeUnits :=
  match user with
  | none => (user, domain)
  | some text =>
    match text.idxOf? 0x5C with
    | none => (user, domain)
    | some slashIdx =>
      let domPart := trim (text.take slashIdx)
      let usrPart := trim (text.drop (slashIdx + 1))
      if domain.isNone && usrPart ≠ [] then
        (some usrPart, if domPart ≠ [] && domPart ≠ lit "." then some domPart else domain)
      else (user, domain)

/-- `RdpUri.normalizeProfile`; it throws when the host that is left is blank. -/
@[irreducible]
def normalizeProfile (profile : ConnectionProfile) : Option ConnectionProfile :=
  let rawHost := removeStart "rdp://" (trim profile.host)
  let rawHost := removeStart "https://" (removeStart "http://" (removeStart "tcp://" rawHost))
  let (host, port) := resolveHost (rawHost.rdropWhile (· = 0x2F)) profile.port
  let (user, domain) := resolveUser (trimmed profile.username) (trimmed profile.domain)
  profile.copy (if host = [] then profile.host else host) port user domain

/-! ## The options -/

/-- Where sound is played. -/
inductive XyAudioMode where
  | device
  | remote
  | off
  deriving DecidableEq

/-- Its number on the command line. -/
def XyAudioMode.wire : XyAudioMode → Int
  | device => 0
  | remote => 1
  | off => 2

/-- The profiles of the stream. -/
inductive XyStreamProfile where
  | auto
  | ultraLowLatency
  | balanced
  | highVisual
  | dataSaver
  | custom
  deriving DecidableEq

/-- The protocols for security. -/
inductive XySecurityProtocol where
  | auto
  | nla
  | tls
  | rdp

/-- Its name on the command line. -/
def XySecurityProtocol.wire : XySecurityProtocol → Option CodeUnits
  | auto => none
  | nla => some (lit "nla")
  | tls => some (lit "tls")
  | rdp => some (lit "rdp")

/-- The options that go into a URI. -/
structure RdpOptions where
  audioMode : XyAudioMode := .device
  microphone : Bool := false
  clipboard : Bool := true
  localDrive : Bool := false
  camera : Bool := false
  udpTransport : Bool := true
  networkAutoDetect : Bool := true
  lowBandwidth : Bool := false
  h264 : Bool := true
  dynamicResolution : Bool := true
  gateway : Option XyGateway := none
  pcConnectMode : Bool := false
  streamProfile : XyStreamProfile := .auto
  colorDepth : Int := 32
  asyncUpdate : Bool := false
  asyncChannels : Bool := false
  compressionLevel : Int := 1
  fontSmoothing : Bool := true
  desktopWallpaper : Bool := true
  windowDrag : Bool := true
  menuAnimations : Bool := true
  visualThemes : Bool := true
  desktopComposition : Bool := true
  videoRemoting : Bool := false
  frameAck : Int := 0
  responsiveLoopMs : Int := 0
  gfxSmallCache : Bool := false
  securityProtocol : XySecurityProtocol := .auto
  tlsSecLevel : Int := -1
  consoleAdmin : Bool := false
  restrictedAdmin : Bool := false
  remoteProgram : Option CodeUnits := none
  remoteWorkDir : Option CodeUnits := none

/-! ## The URI -/

/-- A hierarchical URI: its encoded authority and its decoded query parameters. -/
structure Uri where
  authority : CodeUnits
  query : List (String × CodeUnits)

/-- The user cannot stand in the authority. -/
def needsQueryParamUser (user : Option CodeUnits) : Bool :=
  match user with
  | none => false
  | some user =>
    let u := trim user
    u ≠ [] && u.any fun c => c ∈ lit "@\\:/%" || isWhitespace c

/-- The host as it stands in an authority. -/
def uriHost (host : CodeUnits) : CodeUnits :=
  if 2 ≤ host.count 0x3A ∧ host.head? ≠ some 0x5B then 0x5B :: host ++ [0x5D] else host

/-- The authority of a normalised profile. -/
def authorityOf (norm : ConnectionProfile) : CodeUnits :=
  let authority :=
    uriHost norm.host ++ if norm.port ≠ 3389 then 0x3A :: decimalInt norm.port else []
  match notBlank norm.username with
  | some u => if needsQueryParamUser (some u) then authority else u ++ 0x40 :: authority
  | none => authority

/-- `RdpUri.authority`. -/
def authority (profile : ConnectionProfile) : Option CodeUnits :=
  (normalizeProfile profile).map authorityOf

/-- The parameters that have a value, in their order. -/
def params (entries : List (String × Option CodeUnits)) : List (String × CodeUnits) :=
  entries.filterMap fun (key, value) => value.map (key, ·)

/-- `value.takeIf { condition }`. -/
def takeIf (condition : Bool) (value : CodeUnits) : Option CodeUnits :=
  if condition then some value else none

/-- The parameters of the credentials. -/
def credentialEntries (norm : ConnectionProfile) : List (String × Option CodeUnits) :=
  [("u", (notBlank norm.username).filter fun user => needsQueryParamUser (some user)),
    ("p", notBlank norm.password),
    ("domain", notBlank norm.domain)]

/-- A switch. -/
def onOff (on : Bool) : CodeUnits := if on then lit "+" else lit "-"

/-- The parameters of the options. -/
def optionEntries (options : RdpOptions) : List (String × Option CodeUnits) :=
  let notAuto : Bool := options.streamProfile ≠ .auto
  [("audio-mode", some (decimalInt options.audioMode.wire)),
    ("sound", takeIf (options.audioMode = .device) (lit "sys:opensles,format:1,quality:high")),
    ("microphone",
      takeIf (options.microphone && !options.pcConnectMode) (lit "sys:opensles,format:1")),
    ("clipboard", some (onOff options.clipboard)),
    ("drive", takeIf (options.localDrive && !options.pcConnectMode) (lit "XyDesk")),
    ("dvc", takeIf (options.camera && !options.pcConnectMode) (lit "rdpecam")),
    ("multitransport", takeIf options.udpTransport (lit "+")),
    ("network",
      if options.lowBandwidth then some (lit "broadband-low")
      else takeIf options.networkAutoDetect (lit "auto")),
    ("gfx",
      takeIf options.h264 ((if options.lowBandwidth then lit "AVC420" else lit "AVC444") ++
        if options.gfxSmallCache then lit ",small-cache" else [])),
    ("video", takeIf (options.h264 && options.videoRemoting) []),
    ("frame-ack",
      takeIf (1 ≤ options.frameAck && options.frameAck ≤ 10) (decimalInt options.frameAck)),
    ("max-loop-time",
      takeIf (1 ≤ options.responsiveLoopMs && options.responsiveLoopMs ≤ 1000)
        (decimalInt options.responsiveLoopMs)),
    ("dynamic-resolution", takeIf (options.dynamicResolution && !options.pcConnectMode) []),
    ("bpp",
      takeIf (options.colorDepth ≠ 32 || notAuto)
        (decimalInt (max 16 (min 32 options.colorDepth)))),
    ("async-update", takeIf options.asyncUpdate (lit "+")),
    ("async-channels", takeIf options.asyncChannels (lit "+")),
    ("compression", takeIf (options.compressionLevel = 0) (lit "-")),
    ("compression-level", takeIf (options.compressionLevel = 2) (lit "2")),
    ("fonts", takeIf options.fontSmoothing (lit "+")),
    ("wallpaper",
      takeIf (options.desktopWallpaper || notAuto) (onOff options.desktopWallpaper)),
    ("window-drag", takeIf (options.windowDrag || notAuto) (onOff options.windowDrag)),
    ("menu-anims", takeIf (options.menuAnimations || notAuto) (onOff options.menuAnimations)),
    ("themes",
      takeIf (!options.visualThemes || options.streamProfile = .highVisual)
        (onOff options.visualThemes)),
    ("aero", takeIf options.desktopComposition (lit "+")),
    ("sec", options.securityProtocol.wire),
    ("tls",
      takeIf (0 ≤ options.tlsSecLevel && options.tlsSecLevel ≤ 2)
        (lit "seclevel:" ++ decimalInt options.tlsSecLevel)),
    ("admin", takeIf (options.consoleAdmin || options.pcConnectMode) []),
    ("restricted-admin", takeIf (options.restrictedAdmin && !options.pcConnectMode) []),
    ("shell", (trimmed options.remoteProgram).filter fun _ => !options.pcConnectMode),
    ("shell-dir", (trimmed options.remoteWorkDir).filter fun _ => !options.pcConnectMode),
    ("gateway", (options.gateway.map gatewayArg).filter fun _ => !options.pcConnectMode)]

/-- The parameters of a normalised profile. -/
def queryOf (norm : ConnectionProfile) (options : RdpOptions) : List (String × CodeUnits) :=
  params (credentialEntries norm ++ optionEntries options)

/-- `RdpUri.queryParams`. -/
def queryParams (profile : ConnectionProfile) (options : RdpOptions) :
    Option (List (String × CodeUnits)) :=
  (normalizeProfile profile).map fun norm => queryOf norm options

/-- `RdpUri.build`. -/
def build (profile : ConnectionProfile) (options : RdpOptions) : Option Uri := do
  return ⟨← authority profile, ← queryParams profile options⟩

/-! ## The arguments -/

/-- `getQueryParameterNames`: every name once. -/
def Uri.getQueryParameterNames (uri : Uri) : List String :=
  (uri.query.map Prod.fst).reverse.dedup.reverse

/-- `getQueryParameter`. -/
def Uri.getQueryParameter (uri : Uri) (key : String) : Option CodeUnits :=
  (uri.query.find? fun p => p.1 = key).map Prod.snd

/-- The argument of a parameter; `path` is `appDrivePath(context)`. -/
def paramArgument (path : CodeUnits) (key : String) (value : CodeUnits) : CodeUnits :=
  if value = [] then 0x2F :: lit key
  else if value = lit "-" || value = lit "+" then value ++ lit key
  else
    let value :=
      if key = "drive" && (value = lit "sdcard" || value = lit "XyDesk") then
        value ++ 0x2C :: path
      else value
    0x2F :: lit key ++ 0x3A :: value

/-! ## The parts of an authority -/

/-- A host name: none of its characters delimits the parts of a URI. -/
def IsName (host : CodeUnits) : Prop := host ≠ [] ∧ ∀ u ∈ host, u ∉ lit ":/?#[]@%"

/-- An IPv6 address. -/
def IsIpv6 (host : CodeUnits) : Prop :=
  2 ≤ host.count 0x3A ∧ ∀ u ∈ host, u ∈ lit "0123456789abcdefABCDEF:."

/-- The host of an authority: a host name, or an IPv6 address in brackets. -/
def IsUriHost (host : CodeUnits) : Prop :=
  IsName host ∨ ∃ address, IsIpv6 address ∧ host = 0x5B :: address ++ [0x5D]

/-- A host name or an IP literal. -/
def IsHost (host : CodeUnits) : Prop := IsUriHost host ∨ IsIpv6 host

/-- A host without the brackets of an IP literal. -/
def bareHost (host : CodeUnits) : CodeUnits :=
  if host.head? = some 0x5B then (host.drop 1).dropLast else host

/-- A user name that stands for itself in an authority. -/
def IsUser (user : CodeUnits) : Prop := 0x25 ∉ user ∧ 0x40 ∉ user

/-- What stands in front of the host. -/
def IsUserInfo (start : CodeUnits) : Prop :=
  start = [] ∨ ∃ user, IsUser user ∧ start = user ++ [0x40]

/-- How `android.net.Uri` takes an authority apart; the port is `-1` when there is none. -/
structure UriParser where
  getUserInfo : CodeUnits → Option CodeUnits
  getHost : CodeUnits → Option CodeUnits
  getPort : CodeUnits → Int
  userInfo_user : ∀ {user rest}, IsUser user → 0x40 ∉ rest →
    getUserInfo (user ++ 0x40 :: rest) = some user
  userInfo_none : ∀ {authority}, 0x40 ∉ authority → getUserInfo authority = none
  host_port : ∀ {start host} {port : Nat}, IsUserInfo start → IsUriHost host → 0 < port →
    port ≤ 65535 → getHost (start ++ host ++ 0x3A :: decimal port) = some host ∧
      getPort (start ++ host ++ 0x3A :: decimal port) = port
  host_alone : ∀ {start host}, IsUserInfo start → IsUriHost host →
    getHost (start ++ host) = some host ∧ getPort (start ++ host) = -1

/-- `LibFreeRDP.setConnectionInfo`: the argument vector. -/
def setConnectionInfo (parser : UriParser) (clientName path : CodeUnits) (openUri : Uri) :
    List CodeUnits :=
  let client := if clientName = [] then [] else [lit "/client-hostname:" ++ clientName]
  let host := (parser.getHost openUri.authority).elim [] fun hostname =>
    let port := parser.getPort openUri.authority
    let hostname :=
      if 0x3A ∈ hostname ∧ hostname.head? ≠ some 0x5B then 0x5B :: hostname ++ [0x5D]
      else hostname
    [lit "/v:" ++ (hostname ++ if port = -1 then [] else 0x3A :: decimalInt port)]
  let user := (parser.getUserInfo openUri.authority).elim [] fun user =>
    if openUri.getQueryParameter "u" = none then [lit "/u:" ++ user] else []
  let query := openUri.getQueryParameterNames.filterMap fun key =>
    (openUri.getQueryParameter key).map (paramArgument path key)
  [lit "LibFreeRDP", lit "/gdi:sw"] ++ client ++ host ++ user ++ query ++
    [lit "/kbd:unicode:on"]

/-! ## The argument vector in its parts -/

/-- The parameter is one without a value. -/
def isSwitch (value : CodeUnits) : Bool := value = [] || value = lit "-" || value = lit "+"

/-- The argument of a parameter in its parts. -/
def paramParts (path : CodeUnits) (p : String × CodeUnits) : Argument :=
  if isSwitch p.2 then ⟨p.2.headD 0x2F, lit p.1, none⟩
  else
    ⟨0x2F, lit p.1, some (
      if p.1 = "drive" && (p.2 = lit "sdcard" || p.2 = lit "XyDesk") then p.2 ++ 0x2C :: path
      else p.2)⟩

/-- The server that the authority names. -/
def serverText (norm : ConnectionProfile) : CodeUnits :=
  uriHost norm.host ++ if norm.port ≠ 3389 then 0x3A :: decimalInt norm.port else []

/-- The user that the authority names. -/
def authorityUser (norm : ConnectionProfile) : Option CodeUnits :=
  (notBlank norm.username).filter fun user => !needsQueryParamUser (some user)

/-- The arguments of a connection. -/
def arguments (clientName path : CodeUnits) (norm : ConnectionProfile)
    (options : RdpOptions) : List Argument :=
  [⟨0x2F, lit "gdi", some (lit "sw")⟩] ++
    (if clientName = [] then [] else [⟨0x2F, lit "client-hostname", some clientName⟩]) ++
    [⟨0x2F, lit "v", some (serverText norm)⟩] ++
    (authorityUser norm).toList.map (fun user => ⟨0x2F, lit "u", some user⟩) ++
    (queryOf norm options).map (paramParts path) ++
    [⟨0x2F, lit "kbd", some (lit "unicode:on")⟩]

section Query

variable {path : CodeUnits} {norm : ConnectionProfile} {options : RdpOptions}
  {entries : List (String × Option CodeUnits)} {query : List (String × CodeUnits)}
  {p : String × CodeUnits} {key : String} {value : Option CodeUnits}

theorem mem_params : p ∈ params entries ↔ (p.1, some p.2) ∈ entries := by
  obtain ⟨key, value⟩ := p
  rw [params, mem_filterMap]
  constructor
  · rintro ⟨⟨key', value'⟩, hmem, hvalue⟩
    obtain ⟨v, rfl, heq⟩ := Option.map_eq_some_iff.1 hvalue
    obtain ⟨rfl, rfl⟩ := Prod.mk.inj heq
    exact hmem
  · intro hmem
    exact ⟨(key, some value), hmem, rfl⟩

theorem params_keys : ((params entries).map Prod.fst).Sublist (entries.map Prod.fst) := by
  induction entries with
  | nil => exact List.Sublist.refl _
  | cons e entries ih =>
    obtain ⟨key, value⟩ := e
    cases value with
    | none => exact ih.cons key
    | some v => exact ih.cons_cons key

/-- What is sent under a key. -/
theorem filter_params (hkeys : (entries.map Prod.fst).Nodup) (hmem : (key, value) ∈ entries) :
    (params entries).filter (fun p => p.1 = key) = value.toList.map (key, ·) := by
  -- a key that no entry has
  have hother : ∀ {es : List (String × Option CodeUnits)}, key ∉ es.map Prod.fst →
      (params es).filter (fun p => p.1 = key) = [] := by
    intro es hes
    refine filter_eq_nil_iff.2 fun p hp hkey => hes ?_
    rw [← of_decide_eq_true hkey]
    exact params_keys.subset (mem_map_of_mem hp)
  induction entries with
  | nil => exact absurd hmem not_mem_nil
  | cons e entries ih =>
    obtain ⟨hnotin, hrest⟩ := nodup_cons.1 hkeys
    obtain ⟨key', value'⟩ := e
    have hcons : params ((key', value') :: entries) =
        value'.toList.map (key', ·) ++ params entries := by
      cases value' <;> rfl
    rw [hcons, filter_append]
    rcases mem_cons.1 hmem with heq | hmem
    · obtain ⟨rfl, rfl⟩ := Prod.mk.inj heq
      rw [hother hnotin, append_nil]
      refine filter_eq_self.2 fun p hp => ?_
      obtain ⟨v, -, rfl⟩ := mem_map.1 hp
      exact decide_eq_true rfl
    · have hne : key' ≠ key := by
        rintro rfl
        exact hnotin (mem_map.2 ⟨_, hmem, rfl⟩)
      rw [ih hrest hmem]
      have hnil : (value'.toList.map (key', ·)).filter (fun p => p.1 = key) = [] := by
        refine filter_eq_nil_iff.2 fun p hp hkey => hne ?_
        obtain ⟨v, -, rfl⟩ := mem_map.1 hp
        exact of_decide_eq_true hkey
      rw [hnil, nil_append]

/-- The keys that a parameter may have. -/
def paramKeys : List String :=
  ["u", "p", "domain", "audio-mode", "sound", "microphone", "clipboard", "drive", "dvc",
    "multitransport", "network", "gfx", "video", "frame-ack", "max-loop-time",
    "dynamic-resolution", "bpp", "async-update", "async-channels", "compression",
    "compression-level", "fonts", "wallpaper", "window-drag", "menu-anims", "themes", "aero",
    "sec", "tls", "admin", "restricted-admin", "shell", "shell-dir", "gateway"]

theorem entries_keys :
    (credentialEntries norm ++ optionEntries options).map Prod.fst = paramKeys := rfl

theorem entries_nodup :
    ((credentialEntries norm ++ optionEntries options).map Prod.fst).Nodup := by
  rw [entries_keys]
  decide

/-- No parameter is there twice. -/
theorem queryOf_keys : ((queryOf norm options).map Prod.fst).Nodup :=
  params_keys.nodup entries_nodup

/-- A key that is there once leads to its value. -/
theorem getQueryParameter_of_mem {uri : Uri} (hkeys : (uri.query.map Prod.fst).Nodup)
    (hp : p ∈ uri.query) : uri.getQueryParameter p.1 = some p.2 := by
  rw [Uri.getQueryParameter]
  cases hfind : uri.query.find? fun q => q.1 = p.1 with
  | none => exact absurd (decide_eq_true rfl) (find?_eq_none.1 hfind p hp)
  | some q =>
    have hkey : q.1 = p.1 := of_decide_eq_true
      (find?_some (p := fun q : String × CodeUnits => decide (q.1 = p.1)) hfind)
    rw [inj_on_of_nodup_map hkeys (mem_of_find?_eq_some hfind) hp hkey]
    rfl

/-- The parameters are read back as they were written. -/
theorem query_arguments {uri : Uri} (hkeys : (uri.query.map Prod.fst).Nodup) :
    (uri.getQueryParameterNames.filterMap fun key =>
      (uri.getQueryParameter key).map (paramArgument path key)) =
      uri.query.map fun p => paramArgument path p.1 p.2 := by
  rw [Uri.getQueryParameterNames, dedup_eq_self.2 (nodup_reverse.2 hkeys),
    reverse_reverse, filterMap_map, ← filterMap_eq_map]
  refine filterMap_congr fun p hp => ?_
  rw [Function.comp_apply, getQueryParameter_of_mem hkeys hp]
  rfl

theorem isSwitch_iff {v : CodeUnits} :
    isSwitch v = true ↔ v = [] ∨ v = [0x2D] ∨ v = [0x2B] := by
  have hminus : lit "-" = [0x2D] := by decide
  have hplus : lit "+" = [0x2B] := by decide
  rw [isSwitch, hminus, hplus]
  simp [or_assoc]

theorem paramArgument_eq :
    paramArgument path p.1 p.2 = (paramParts path p).text := by
  obtain ⟨key, v⟩ := p
  rw [paramArgument, paramParts]
  by_cases hswitch : isSwitch v = true
  · rw [if_pos hswitch]
    rcases isSwitch_iff.1 hswitch with rfl | rfl | rfl
    · simp [Argument.text]
    · simp [Argument.text, show lit "-" = [0x2D] by decide]
    · simp [Argument.text, show lit "+" = [0x2B] by decide]
  · rw [if_neg hswitch]
    have hvalue : ¬ v = [] ∧ ¬ v = lit "-" ∧ ¬ v = lit "+" := by
      simpa [isSwitch, and_assoc] using hswitch
    obtain ⟨hne, hminus, hplus⟩ := hvalue
    rw [if_neg hne, if_neg (by simp [hminus, hplus])]
    rfl

end Query

/-! ## The authority of a connection -/

section Authority

variable {profile norm : ConnectionProfile} {host user : CodeUnits} {parser : UriParser}

theorem takePort_port {rawHost maybeHost maybePort : CodeUnits} {port : Int}
    (hport : 1 ≤ port ∧ port ≤ 65535) :
    1 ≤ (takePort rawHost port maybeHost maybePort).2 ∧
      (takePort rawHost port maybeHost maybePort).2 ≤ 65535 := by
  rw [takePort]
  cases toIntOrNull (trim maybePort) with
  | none => exact hport
  | some typed =>
    dsimp only
    split
    · rename_i htyped
      show 1 ≤ (if port = 3389 then typed else port) ∧
        (if port = 3389 then typed else port) ≤ 65535
      split
      · exact htyped.2
      · exact hport
    · exact hport

/-- A port that is typed with the host is a port. -/
theorem resolveHost_port {rawHost : CodeUnits} {port : Int} (hport : 1 ≤ port ∧ port ≤ 65535) :
    1 ≤ (resolveHost rawHost port).2 ∧ (resolveHost rawHost port).2 ≤ 65535 := by
  rw [resolveHost]
  split
  · split
    · exact takePort_port hport
    · exact hport
  · split
    · split
      · exact takePort_port hport
      · exact hport
    · exact hport

theorem colon_not_mem_name (h : IsName host) : (0x3A : UInt16) ∉ host := fun hmem =>
  h.2 _ hmem (by decide)

/-- The host in an authority: a name stands for itself, an IPv6 address is in brackets. -/
theorem uriHost_cases (h : IsHost host) :
    (IsName host ∧ uriHost host = host ∧ bareHost host = host) ∨
      ∃ address, IsIpv6 address ∧ uriHost host = 0x5B :: address ++ [0x5D] ∧
        bareHost host = address := by
  rw [uriHost, bareHost]
  rcases h with (hname | ⟨address, haddress, rfl⟩) | haddress
  · left
    refine ⟨hname, if_neg ?_, if_neg fun hhead => ?_⟩
    · rintro ⟨hcount, -⟩
      rw [count_eq_zero.2 (colon_not_mem_name hname)] at hcount
      omega
    · exact hname.2 0x5B (mem_of_head? hhead) (by decide)
  · right
    refine ⟨address, haddress, if_neg fun hboth => hboth.2 rfl, ?_⟩
    rw [cons_append, head?_cons, if_pos rfl, drop_one, tail_cons, dropLast_concat]
  · right
    have hhead : host.head? ≠ some 0x5B := fun hhead =>
      absurd (haddress.2 0x5B (mem_of_head? hhead)) (by decide)
    exact ⟨host, haddress, if_pos ⟨haddress.1, hhead⟩, if_neg hhead⟩

/-- The host in an authority has the form that it has to have there. -/
theorem isUriHost_uriHost (h : IsHost host) : IsUriHost (uriHost host) := by
  rcases uriHost_cases h with ⟨hname, heq, -⟩ | ⟨address, haddress, heq, -⟩
  · rw [heq]
    exact Or.inl hname
  · rw [heq]
    exact Or.inr ⟨address, haddress, rfl⟩

/-- No user ends in the host of an authority. -/
theorem at_not_mem_uriHost (h : IsUriHost host) : (0x40 : UInt16) ∉ host := by
  rcases h with hname | ⟨address, haddress, rfl⟩
  · exact fun hmem => hname.2 _ hmem (by decide)
  · intro hmem
    rcases mem_append.1 hmem with hmem | hmem
    · rcases mem_cons.1 hmem with heq | hmem
      · exact absurd heq (by decide)
      · exact absurd (haddress.2 _ hmem) (by decide)
    · exact absurd (mem_singleton.1 hmem) (by decide)

theorem uriHost_bracketed (h : IsUriHost host) :
    ¬ (0x3A ∈ host ∧ host.head? ≠ some 0x5B) := by
  rintro ⟨hcolon, hhead⟩
  rcases h with hname | ⟨address, -, rfl⟩
  · exact colon_not_mem_name hname hcolon
  · exact hhead rfl

/-- A user that is not sent as a parameter stands for itself. -/
theorem isUser_of_not_param (hblank : isBlank user = false)
    (h : needsQueryParamUser (some user) = false) : IsUser user := by
  have hne : trim user ≠ [] := by
    obtain ⟨u, hu, hw⟩ := all_eq_false.1 hblank
    exact ne_nil_of_mem (mem_trim hu (by simpa using hw))
  have hnone : ∀ u ∈ trim user, u ∉ lit "@\\:/%" := by
    intro u hu hspecial
    rw [needsQueryParamUser] at h
    have hany : (trim user).any (fun c => c ∈ lit "@\\:/%" || isWhitespace c) = true :=
      any_eq_true.2 ⟨u, hu, by simp [hspecial]⟩
    simp [hne, hany] at h
  constructor
  · exact fun hmem => hnone _ (mem_trim hmem (by decide)) (by decide)
  · exact fun hmem => hnone _ (mem_trim hmem (by decide)) (by decide)

theorem authorityUser_isUser (h : authorityUser norm = some user) :
    IsUser user := by
  obtain ⟨huser, hparam⟩ := Option.filter_eq_some_iff.1 h
  obtain ⟨-, hblank⟩ := Option.filter_eq_some_iff.1 huser
  exact isUser_of_not_param (by simpa using hblank) (by simpa using hparam)

/-- What an authority consists of. -/
def authorityText (norm : ConnectionProfile) : CodeUnits :=
  ((authorityUser norm).elim [] fun user => user ++ [0x40]) ++ serverText norm

theorem authorityOf_eq : authorityOf norm = authorityText norm := by
  rw [authorityOf, authorityText, authorityUser, serverText]
  cases notBlank norm.username with
  | none => simp
  | some u =>
    by_cases hparam : needsQueryParamUser (some u) = true
    · rw [Option.filter_some_neg (by simp [hparam])]
      simp [hparam]
    · rw [Option.filter_some_pos (by simp [hparam])]
      simp [hparam]

end Authority

/-! ## The arguments of a connection -/

section Vector

variable {clientName path : CodeUnits} {profile norm : ConnectionProfile}
  {options : RdpOptions} {parser : UriParser} {key : String} {value : Option CodeUnits} {n : Int}

theorem decimalInt_of_nonneg (h : 0 ≤ n) : decimalInt n = decimal n.toNat :=
  if_neg (by omega)

/-- No user ends in the server that an authority names. -/
theorem at_not_mem_serverText (hhost : IsHost norm.host) (hport : 1 ≤ norm.port) :
    (0x40 : UInt16) ∉ serverText norm := by
  rw [serverText]
  intro hmem
  rcases mem_append.1 hmem with hmem | hmem
  · exact at_not_mem_uriHost (isUriHost_uriHost hhost) hmem
  · split at hmem
    · rw [decimalInt_of_nonneg (by omega)] at hmem
      rcases mem_cons.1 hmem with heq | hmem
      · exact absurd heq (by decide)
      · exact absurd (mem_decimal hmem).2.1 (by decide)
    · exact absurd hmem not_mem_nil

theorem getUserInfo_authorityText (hhost : IsHost norm.host) (hport : 1 ≤ norm.port) :
    parser.getUserInfo (authorityText norm) = authorityUser norm := by
  have hat := at_not_mem_serverText hhost hport
  rw [authorityText]
  cases huser : authorityUser norm with
  | none => exact parser.userInfo_none hat
  | some user =>
    rw [Option.elim_some, append_assoc]
    exact parser.userInfo_user (authorityUser_isUser huser) hat

theorem getHost_authorityText (hhost : IsHost norm.host)
    (hport : 1 ≤ norm.port ∧ norm.port ≤ 65535) :
    parser.getHost (authorityText norm) = some (uriHost norm.host) ∧
      (uriHost norm.host ++
        if parser.getPort (authorityText norm) = -1 then []
        else 0x3A :: decimalInt (parser.getPort (authorityText norm))) = serverText norm := by
  have hstart : IsUserInfo ((authorityUser norm).elim [] fun user => user ++ [0x40]) := by
    cases huser : authorityUser norm with
    | none => exact Or.inl rfl
    | some user => exact Or.inr ⟨user, authorityUser_isUser huser, rfl⟩
  have huri := isUriHost_uriHost hhost
  rw [authorityText, serverText]
  by_cases hdefault : norm.port = 3389
  · rw [if_neg (not_not.2 hdefault), append_nil]
    obtain ⟨hname, hnone⟩ := parser.host_alone hstart huri
    rw [hname, hnone, if_pos rfl, append_nil]
    exact ⟨rfl, rfl⟩
  · rw [if_pos hdefault, decimalInt_of_nonneg (by omega), ← append_assoc]
    obtain ⟨hname, hnumber⟩ := parser.host_port hstart huri
      (show 0 < norm.port.toNat by omega) (by omega)
    rw [hname, hnumber, if_neg (by omega), decimalInt_of_nonneg (by omega), Int.toNat_natCast]
    exact ⟨rfl, rfl⟩

/-- What is sent under a key. -/
theorem filter_queryOf
    (hmem : (key, value) ∈ credentialEntries norm ++ optionEntries options) :
    (queryOf norm options).filter (fun p => p.1 = key) = value.toList.map (key, ·) :=
  filter_params entries_nodup hmem

/-- The URI of a normalised profile. -/
def uriOf (norm : ConnectionProfile) (options : RdpOptions) : Uri :=
  ⟨authorityOf norm, queryOf norm options⟩

theorem build_eq : build profile options =
    (normalizeProfile profile).map fun norm => uriOf norm options := by
  rw [build, authority, queryParams]
  cases normalizeProfile profile <;> rfl

theorem getQueryParameter_user {user : CodeUnits} (huser : authorityUser norm = some user) :
    (uriOf norm options).getQueryParameter "u" = none := by
  have hentry : ("u", (notBlank norm.username).filter
      fun user => needsQueryParamUser (some user)) ∈
      credentialEntries norm ++ optionEntries options :=
    mem_append_left _ mem_cons_self
  have hfilter := filter_queryOf hentry
  obtain ⟨hname, hparam⟩ := Option.filter_eq_some_iff.1 huser
  rw [hname, Option.filter_some_neg (by simpa using hparam)] at hfilter
  rw [Uri.getQueryParameter, uriOf, ← head?_filter, hfilter]
  rfl

/-- **The arguments of a connection.** -/
theorem setConnectionInfo_eq (hhost : IsHost norm.host) :
    setConnectionInfo parser clientName path (uriOf norm options) =
      lit "LibFreeRDP" :: (arguments clientName path norm options).map Argument.text := by
  obtain ⟨hname, hserver⟩ := @getHost_authorityText _ parser hhost norm.inRange
  have huser := @getUserInfo_authorityText _ parser hhost norm.inRange.1
  have hquery : ((uriOf norm options).getQueryParameterNames.filterMap fun key =>
      ((uriOf norm options).getQueryParameter key).map (paramArgument path key)) =
      ((queryOf norm options).map (paramParts path)).map Argument.text := by
    rw [query_arguments queryOf_keys, map_map]
    exact map_congr_left fun p _ => paramArgument_eq
  have hsame : (uriOf norm options).authority = authorityText norm := authorityOf_eq
  have huserText : ((parser.getUserInfo (uriOf norm options).authority).elim [] fun user =>
      if (uriOf norm options).getQueryParameter "u" = none then [lit "/u:" ++ user] else []) =
      ((authorityUser norm).toList.map fun user =>
        (⟨0x2F, lit "u", some user⟩ : Argument)).map Argument.text := by
    rw [hsame, huser]
    cases hauthority : authorityUser norm with
    | none => rfl
    | some user =>
      rw [Option.elim_some, if_pos (getQueryParameter_user hauthority)]
      rfl
  have hclient : (if clientName = [] then [] else [lit "/client-hostname:" ++ clientName]) =
      (if clientName = [] then []
        else [(⟨0x2F, lit "client-hostname", some clientName⟩ : Argument)]).map Argument.text := by
    split <;> rfl
  rw [setConnectionInfo, hquery, huserText, hclient, hsame, hname, Option.elim_some]
  dsimp only
  rw [if_neg (uriHost_bracketed (isUriHost_uriHost hhost)), hserver, arguments]
  simp only [map_append]
  rfl

end Vector

end RdpUri
