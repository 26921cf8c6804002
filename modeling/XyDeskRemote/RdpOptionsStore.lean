/-
# The stored options of a device

`RdpOptions.write` puts the options of a device into one preference file, every value under
the name of the device, a dot and the name of the option; `of` reads them back, with a
default for what is missing, a range for every number, and a few options that depend on the
profile of the stream.  No name of an option has a dot, so that the keys of two devices never
meet, whatever dots their names have.
-/
import XyDeskRemote.RdpUri

open WorkerText (lit)

namespace RdpOptionsStore

/-! ## Keys -/

/-- The options that are stored. -/
inductive OptionKey where
  | pc_mode | pc_engine | pc_fps | pc_bitrate | raw_mouse | audio | mic | quic_audio | mic_gain
  | mic_gate | mic_ns | mic_agc | clipboard | drive | camera | udp | netauto | lowbw | h264
  | dynres | stream_profile | gpu_profile | bat_saver | bpp | fps | async_upd | async_ch
  | comp_lvl | fonts | wallpaper | windrag | menuanim | themes | aero | video_rem | frame_ack
  | loop_ms | gfx_smallcache | clarity_v2 | audio_dsp_v1 | sec_proto | tls_sec | admin
  | restricted_admin | remote_prog | remote_dir | wol_mac | wol_bcast | wol_port | ssh_host
  | ssh_port | ssh_user | ssh_lport | ghost | gport | guser | gpass | gdomain
  deriving DecidableEq

namespace OptionKey

/-- The name of an option in the file. -/
def name : OptionKey → CodeUnits
  | pc_mode => lit "pc_mode"
  | pc_engine => lit "pc_engine"
  | pc_fps => lit "pc_fps"
  | pc_bitrate => lit "pc_bitrate"
  | raw_mouse => lit "raw_mouse"
  | audio => lit "audio"
  | mic => lit "mic"
  | quic_audio => lit "quic_audio"
  | mic_gain => lit "mic_gain"
  | mic_gate => lit "mic_gate"
  | mic_ns => lit "mic_ns"
  | mic_agc => lit "mic_agc"
  | clipboard => lit "clipboard"
  | drive => lit "drive"
  | camera => lit "camera"
  | udp => lit "udp"
  | netauto => lit "netauto"
  | lowbw => lit "lowbw"
  | h264 => lit "h264"
  | dynres => lit "dynres"
  | stream_profile => lit "stream_profile"
  | gpu_profile => lit "gpu_profile"
  | bat_saver => lit "bat_saver"
  | bpp => lit "bpp"
  | fps => lit "fps"
  | async_upd => lit "async_upd"
  | async_ch => lit "async_ch"
  | comp_lvl => lit "comp_lvl"
  | fonts => lit "fonts"
  | wallpaper => lit "wallpaper"
  | windrag => lit "windrag"
  | menuanim => lit "menuanim"
  | themes => lit "themes"
  | aero => lit "aero"
  | video_rem => lit "video_rem"
  | frame_ack => lit "frame_ack"
  | loop_ms => lit "loop_ms"
  | gfx_smallcache => lit "gfx_smallcache"
  | clarity_v2 => lit "clarity_v2"
  | audio_dsp_v1 => lit "audio_dsp_v1"
  | sec_proto => lit "sec_proto"
  | tls_sec => lit "tls_sec"
  | admin => lit "admin"
  | restricted_admin => lit "restricted_admin"
  | remote_prog => lit "remote_prog"
  | remote_dir => lit "remote_dir"
  | wol_mac => lit "wol_mac"
  | wol_bcast => lit "wol_bcast"
  | wol_port => lit "wol_port"
  | ssh_host => lit "ssh_host"
  | ssh_port => lit "ssh_port"
  | ssh_user => lit "ssh_user"
  | ssh_lport => lit "ssh_lport"
  | ghost => lit "ghost"
  | gport => lit "gport"
  | guser => lit "guser"
  | gpass => lit "gpass"
  | gdomain => lit "gdomain"

/-- All options. -/
def entries : List OptionKey :=
  [pc_mode, pc_engine, pc_fps, pc_bitrate, raw_mouse, audio, mic, quic_audio, mic_gain, mic_gate,
    mic_ns, mic_agc, clipboard, drive, camera, udp, netauto, lowbw, h264, dynres, stream_profile,
    gpu_profile, bat_saver, bpp, fps, async_upd, async_ch, comp_lvl, fonts, wallpaper, windrag,
    menuanim, themes, aero, video_rem, frame_ack, loop_ms, gfx_smallcache, clarity_v2,
    audio_dsp_v1, sec_proto, tls_sec, admin, restricted_admin, remote_prog, remote_dir, wol_mac,
    wol_bcast, wol_port, ssh_host, ssh_port, ssh_user, ssh_lport, ghost, gport, guser, gpass,
    gdomain]

theorem mem_entries (k : OptionKey) : k ∈ entries := by
  cases k <;> decide

theorem nodup_names : (entries.map name).Nodup := by
  decide +kernel

theorem name_injective : Function.Injective name := by
  intro k k' h
  exact List.inj_on_of_nodup_map nodup_names (mem_entries k) (mem_entries k') h

theorem dot_not_mem_name (k : OptionKey) : (0x2E : UInt16) ∉ k.name := by
  cases k <;> decide

/-- `"$deviceId.name"`. -/
def key (deviceId : CodeUnits) (k : OptionKey) : CodeUnits := deviceId ++ 0x2E :: k.name

/-- **The keys of two devices never meet.** -/
theorem key_inj {deviceId deviceId' : CodeUnits} {k k' : OptionKey}
    (h : key deviceId k = key deviceId' k') : deviceId = deviceId' ∧ k = k' := by
  obtain ⟨hid, hname⟩ :=
    WorkerText.append_cons_inj_right (dot_not_mem_name k) (dot_not_mem_name k') h
  exact ⟨hid, name_injective hname⟩

end OptionKey

/-! ## Options -/

/-- The graphics processors. -/
inductive XyGpuProfile where
  | auto | nvidia | amd | intel | software
  deriving DecidableEq

/-- The engines of the PC mode. -/
inductive XyPcStreamEngine where
  | directGameUltra | directStudio444 | directCinema | directLanTurbo
  deriving DecidableEq

/-- All options of a device: those that the connection's URI is made from, and the others. -/
structure RdpOptions extends RdpUri.RdpOptions where
  quicAudio : Bool := true
  micGainDb : Int := 6
  micGateDb : Int := -42
  micNoiseSuppression : Bool := true
  micAgc : Bool := true
  pcStreamEngine : XyPcStreamEngine := .directGameUltra
  pcTargetFps : Int := 60
  pcBitrateMbps : Int := 25
  rawInputMouse : Bool := true
  gpuProfile : XyGpuProfile := .auto
  batterySaver : Bool := false
  targetFps : Int := 60
  macAddress : Option CodeUnits := none
  wolBroadcast : CodeUnits := lit "255.255.255.255"
  wolPort : Int := 9
  sshHost : Option CodeUnits := none
  sshPort : Int := 22
  sshUser : Option CodeUnits := none
  sshLocalPort : Int := 0

/-- The entries of `XyAudioMode`. -/
def audioModes : List RdpUri.XyAudioMode := [.device, .remote, .off]

/-- The entries of `XyStreamProfile`. -/
def streamProfiles : List RdpUri.XyStreamProfile :=
  [.auto, .ultraLowLatency, .balanced, .highVisual, .dataSaver, .custom]

/-- The entries of `XySecurityProtocol`. -/
def securityProtocols : List RdpUri.XySecurityProtocol := [.auto, .nla, .tls, .rdp]

/-- The entries of `XyGpuProfile`. -/
def gpuProfiles : List XyGpuProfile := [.auto, .nvidia, .amd, .intel, .software]

/-- The entries of `XyPcStreamEngine`. -/
def pcStreamEngines : List XyPcStreamEngine :=
  [.directGameUltra, .directStudio444, .directCinema, .directLanTurbo]

/-- `entries.getOrElse(i) { fallback }`. -/
def entryAt {α : Type} (entries : List α) (i : Int) (fallback : α) : α :=
  if i < 0 then fallback else entries.getD i.toNat fallback

/-- The ordinal of an audio mode. -/
def audioOrdinal : RdpUri.XyAudioMode → Int
  | .device => 0
  | .remote => 1
  | .off => 2

/-- The ordinal of a stream profile. -/
def streamOrdinal : RdpUri.XyStreamProfile → Int
  | .auto => 0
  | .ultraLowLatency => 1
  | .balanced => 2
  | .highVisual => 3
  | .dataSaver => 4
  | .custom => 5

/-- The ordinal of a security protocol. -/
def securityOrdinal : RdpUri.XySecurityProtocol → Int
  | .auto => 0
  | .nla => 1
  | .tls => 2
  | .rdp => 3

/-- The ordinal of a graphics processor. -/
def gpuOrdinal : XyGpuProfile → Int
  | .auto => 0
  | .nvidia => 1
  | .amd => 2
  | .intel => 3
  | .software => 4

/-- The ordinal of an engine. -/
def engineOrdinal : XyPcStreamEngine → Int
  | .directGameUltra => 0
  | .directStudio444 => 1
  | .directCinema => 2
  | .directLanTurbo => 3

/-! ## Preferences -/

/-- The values of a preference file. -/
inductive PrefValue where
  | boolean (b : Bool)
  | int (n : Int)
  | string (s : CodeUnits)

/-- A preference file. -/
abbrev Prefs : Type := CodeUnits → Option PrefValue

/-- An edit of the file: a value to put under a key, or nothing to remove it. -/
abbrev Edit : Type := OptionKey × Option PrefValue

/-- `putBoolean` of the editor. -/
def putBoolean (k : OptionKey) (b : Bool) : Edit := (k, some (.boolean b))

/-- `putInt` of the editor. -/
def putInt (k : OptionKey) (n : Int) : Edit := (k, some (.int n))

/-- `putString` of the editor. -/
def putString (k : OptionKey) (s : CodeUnits) : Edit := (k, some (.string s))

/-- `remove` of the editor. -/
def remove (k : OptionKey) : Edit := (k, none)

/-- `apply`, on the keys of a device. -/
def applyEdits (deviceId : CodeUnits) (edits : List Edit) (prefs : Prefs) : Prefs :=
  edits.foldl (fun prefs e => Function.update prefs (OptionKey.key deviceId e.1) e.2) prefs

/-- `orEmpty`. -/
def orEmpty (s : Option CodeUnits) : CodeUnits := s.getD []

/-- The edits of the gateway. -/
def gatewayEdits (gateway : Option XyGateway) : List Edit :=
  match gateway.filter fun g => !KotlinText.isBlank g.host with
  | none => [remove .ghost, remove .gport, remove .guser, remove .gpass, remove .gdomain]
  | some g =>
    [putString .ghost g.host, putInt .gport g.port, putString .guser (orEmpty g.username),
      putString .gpass (orEmpty g.password), putString .gdomain (orEmpty g.domain)]

/-- The edits of `write`. -/
def edits (o : RdpOptions) : List Edit :=
  [putBoolean .pc_mode o.pcConnectMode,
    putInt .pc_engine (engineOrdinal o.pcStreamEngine),
    putInt .pc_fps o.pcTargetFps,
    putInt .pc_bitrate o.pcBitrateMbps,
    putBoolean .raw_mouse o.rawInputMouse,
    putInt .audio (audioOrdinal o.audioMode),
    putBoolean .mic o.microphone,
    putBoolean .quic_audio o.quicAudio,
    putInt .mic_gain o.micGainDb,
    putInt .mic_gate o.micGateDb,
    putBoolean .mic_ns o.micNoiseSuppression,
    putBoolean .mic_agc o.micAgc,
    putBoolean .clipboard o.clipboard,
    putBoolean .drive o.localDrive,
    putBoolean .camera o.camera,
    putBoolean .udp o.udpTransport,
    putBoolean .netauto o.networkAutoDetect,
    putBoolean .lowbw o.lowBandwidth,
    putBoolean .h264 o.h264,
    putBoolean .dynres o.dynamicResolution,
    putInt .stream_profile (streamOrdinal o.streamProfile),
    putInt .gpu_profile (gpuOrdinal o.gpuProfile),
    putBoolean .bat_saver o.batterySaver,
    putInt .bpp o.colorDepth,
    putInt .fps o.targetFps,
    putBoolean .async_upd o.asyncUpdate,
    putBoolean .async_ch o.asyncChannels,
    putInt .comp_lvl o.compressionLevel,
    putBoolean .fonts o.fontSmoothing,
    putBoolean .wallpaper o.desktopWallpaper,
    putBoolean .windrag o.windowDrag,
    putBoolean .menuanim o.menuAnimations,
    putBoolean .themes o.visualThemes,
    putBoolean .aero o.desktopComposition,
    putBoolean .video_rem o.videoRemoting,
    putInt .frame_ack o.frameAck,
    putInt .loop_ms o.responsiveLoopMs,
    putBoolean .gfx_smallcache o.gfxSmallCache,
    putInt .clarity_v2 3,
    putInt .audio_dsp_v1 1,
    putInt .sec_proto (securityOrdinal o.securityProtocol),
    putInt .tls_sec o.tlsSecLevel,
    putBoolean .admin o.consoleAdmin,
    putBoolean .restricted_admin o.restrictedAdmin,
    putString .remote_prog (orEmpty o.remoteProgram),
    putString .remote_dir (orEmpty o.remoteWorkDir),
    putString .wol_mac (orEmpty o.macAddress),
    putString .wol_bcast o.wolBroadcast,
    putInt .wol_port o.wolPort,
    putString .ssh_host (orEmpty o.sshHost),
    putInt .ssh_port o.sshPort,
    putString .ssh_user (orEmpty o.sshUser),
    putInt .ssh_lport o.sshLocalPort] ++ gatewayEdits o.gateway

/-- `write`: the options of a device. -/
def write (o : RdpOptions) (deviceId : CodeUnits) (prefs : Prefs) : Prefs :=
  applyEdits deviceId (edits o) prefs

/-- The keys that `clear` removes. -/
def clearedKeys : List OptionKey :=
  [.pc_mode, .pc_engine, .pc_fps, .pc_bitrate, .raw_mouse, .audio, .mic, .clipboard, .drive,
    .camera, .udp, .netauto, .lowbw, .h264, .dynres, .ghost, .gport, .guser, .gpass, .gdomain,
    .stream_profile, .gpu_profile, .bat_saver, .bpp, .fps, .async_upd, .async_ch, .comp_lvl,
    .fonts, .wallpaper, .windrag, .menuanim, .themes, .aero, .clarity_v2, .video_rem,
    .frame_ack, .loop_ms, .gfx_smallcache, .sec_proto, .tls_sec, .admin, .restricted_admin,
    .remote_prog, .remote_dir, .wol_mac, .wol_bcast, .wol_port, .ssh_host, .ssh_port,
    .ssh_user, .ssh_lport]

/-- `clear`: the keys of `KEYS` are removed. -/
def clear (deviceId : CodeUnits) (prefs : Prefs) : Prefs :=
  applyEdits deviceId (clearedKeys.map remove) prefs

/-! ## Reading -/

/-- The entries of one device. -/
abbrev View : Type := OptionKey → Option PrefValue

/-- The entries of one device. -/
def view (prefs : Prefs) (deviceId : CodeUnits) : View := fun k => prefs (OptionKey.key deviceId k)

/-- `getBoolean`; a value of another type makes it throw. -/
def getBoolean (v : View) (k : OptionKey) (fallback : Bool) : Option Bool :=
  match v k with
  | none => some fallback
  | some (.boolean b) => some b
  | _ => none

/-- `getInt`, which raises on another type. -/
def getInt (v : View) (k : OptionKey) (fallback : Int) : Option Int :=
  match v k with
  | none => some fallback
  | some (.int n) => some n
  | _ => none

/-- `getString`, which raises on another type. -/
def getString (v : View) (k : OptionKey) (fallback : CodeUnits) : Option CodeUnits :=
  match v k with
  | none => some fallback
  | some (.string s) => some s
  | _ => none

/-- `coerceIn`. -/
def coerceIn (n low high : Int) : Int := if n < low then low else if high < n then high else n

/-- `let { if (it in choices) it else fallback }`. -/
def choose (choices : List Int) (fallback n : Int) : Int := if n ∈ choices then n else fallback

/-- The frame rates that are known. -/
def frameRates : List Int := [30, 60, 90, 120]

/-- The colour depths that are known. -/
def colorDepths : List Int := [16, 24, 32]

/-- `ifBlank { null }`. -/
def ifBlank (s : CodeUnits) : Option CodeUnits := if KotlinText.isBlank s then none else some s

/-- The broadcast address of the default. -/
def broadcast : CodeUnits := lit "255.255.255.255"

/-- The gateway, if there is a host. -/
def readGateway (v : View) : Option (Option XyGateway) := do
  let gatewayHost ← getString v .ghost []
  if KotlinText.isBlank gatewayHost then
    some none
  else
    let port ← getInt v .gport 443
    let username ← getString v .guser []
    let password ← getString v .gpass []
    let domain ← getString v .gdomain []
    some (some
      { host := gatewayHost, port := port, username := ifBlank username,
        password := ifBlank password, domain := ifBlank domain })

/-- The options that the connection's URI is made from. -/
def readUriOptions (v : View) : Option RdpUri.RdpOptions := do
  let audioMode := entryAt audioModes (← getInt v .audio 0) .device
  let streamProfile := entryAt streamProfiles (← getInt v .stream_profile 0) .auto
  let secProto := entryAt securityProtocols (← getInt v .sec_proto 0) .auto
  let gateway ← readGateway v
  let migratedV3 := decide (3 ≤ (← getInt v .clarity_v2 0))
  let isDataSaver := decide (streamProfile = .dataSaver)
  some
    { pcConnectMode := ← getBoolean v .pc_mode false
      audioMode := audioMode
      microphone := ← getBoolean v .mic true
      clipboard := ← getBoolean v .clipboard true
      localDrive := ← getBoolean v .drive false
      camera := ← getBoolean v .camera false
      udpTransport := ← getBoolean v .udp true
      networkAutoDetect := ← if migratedV3 then getBoolean v .netauto false else some false
      lowBandwidth := ← if isDataSaver then getBoolean v .lowbw true else some false
      h264 := ← if migratedV3 then getBoolean v .h264 true else some true
      dynamicResolution := ← getBoolean v .dynres true
      gateway := gateway
      streamProfile :=
        if streamProfile = .ultraLowLatency ∧ migratedV3 = false then .auto else streamProfile
      colorDepth := ← if isDataSaver then (getInt v .bpp 16).map (choose colorDepths 16)
        else some 32
      asyncUpdate := ← getBoolean v .async_upd true
      asyncChannels := ← getBoolean v .async_ch true
      compressionLevel := coerceIn (← getInt v .comp_lvl 1) 0 2
      fontSmoothing := ← if migratedV3 then getBoolean v .fonts true else some true
      desktopWallpaper := ← getBoolean v .wallpaper false
      windowDrag := ← getBoolean v .windrag false
      menuAnimations := ← getBoolean v .menuanim false
      visualThemes := ← getBoolean v .themes true
      desktopComposition := ← if migratedV3 then getBoolean v .aero true else some true
      videoRemoting := ← getBoolean v .video_rem false
      frameAck := coerceIn (← getInt v .frame_ack 0) 0 10
      responsiveLoopMs := coerceIn (← getInt v .loop_ms 0) 0 1000
      gfxSmallCache := ← getBoolean v .gfx_smallcache false
      securityProtocol := secProto
      tlsSecLevel := coerceIn (← getInt v .tls_sec (-1)) (-1) 2
      consoleAdmin := ← getBoolean v .admin false
      restrictedAdmin := ← getBoolean v .restricted_admin false
      remoteProgram := ifBlank (← getString v .remote_prog [])
      remoteWorkDir := ifBlank (← getString v .remote_dir []) }

/-- The options of the entries of a device; nothing when a value has another type. -/
def readOptions (v : View) : Option RdpOptions := do
  let uriOptions ← readUriOptions v
  some
    { toRdpOptions := uriOptions
      pcStreamEngine := entryAt pcStreamEngines (← getInt v .pc_engine 0) .directGameUltra
      gpuProfile := entryAt gpuProfiles (← getInt v .gpu_profile 0) .auto
      pcTargetFps := choose frameRates 60 (← getInt v .pc_fps 60)
      pcBitrateMbps := coerceIn (← getInt v .pc_bitrate 25) 5 80
      rawInputMouse := ← getBoolean v .raw_mouse true
      quicAudio := ← getBoolean v .quic_audio true
      micGainDb := coerceIn (← getInt v .mic_gain 6) (-12) 24
      micGateDb := coerceIn (← getInt v .mic_gate (-42)) (-70) 0
      micNoiseSuppression := ← getBoolean v .mic_ns true
      micAgc := ← getBoolean v .mic_agc true
      batterySaver := ← getBoolean v .bat_saver false
      targetFps := choose frameRates 60 (← getInt v .fps 60)
      macAddress := ifBlank (← getString v .wol_mac [])
      wolBroadcast := (ifBlank (← getString v .wol_bcast broadcast)).getD broadcast
      wolPort := coerceIn (← getInt v .wol_port 9) 1 65535
      sshHost := ifBlank (← getString v .ssh_host [])
      sshPort := coerceIn (← getInt v .ssh_port 22) 1 65535
      sshUser := ifBlank (← getString v .ssh_user [])
      sshLocalPort := coerceIn (← getInt v .ssh_lport 0) 0 65535 }

/-- `of`: the options of a device. -/
def of (prefs : Prefs) (deviceId : CodeUnits) : Option RdpOptions :=
  readOptions (view prefs deviceId)

/-! ## The edits of a device -/

variable {deviceId deviceId' : CodeUnits} {prefs : Prefs} {o : RdpOptions} {k : OptionKey}

/-- What no edit is about stays as it is. -/
theorem applyEdits_of_ne {edits : List Edit} {s : CodeUnits}
    (h : ∀ e ∈ edits, s ≠ OptionKey.key deviceId e.1) :
    applyEdits deviceId edits prefs s = prefs s := by
  induction edits generalizing prefs with
  | nil => rfl
  | cons e edits ih =>
    have hrest : applyEdits deviceId edits
        (Function.update prefs (OptionKey.key deviceId e.1) e.2) s =
          Function.update prefs (OptionKey.key deviceId e.1) e.2 s :=
      ih fun e' he' => h e' (List.mem_cons_of_mem _ he')
    rw [Function.update_of_ne (h e List.mem_cons_self)] at hrest
    exact hrest

/-- **Edits of one device leave the others alone.** -/
theorem view_applyEdits_of_ne (hne : deviceId' ≠ deviceId) (edits : List Edit) (prefs : Prefs) :
    view (applyEdits deviceId edits prefs) deviceId' = view prefs deviceId' := by
  funext k
  apply applyEdits_of_ne
  intro e _ heq
  exact hne (OptionKey.key_inj heq).1

theorem view_applyEdits {edits : List Edit} (hnodup : (edits.map Prod.fst).Nodup)
    (prefs : Prefs) (k : OptionKey) :
    view (applyEdits deviceId edits prefs) deviceId k =
      (edits.lookup k).getD (view prefs deviceId k) := by
  induction edits generalizing prefs with
  | nil => rfl
  | cons e edits ih =>
    obtain ⟨hnot, hnodup⟩ := List.nodup_cons.1 hnodup
    have hrest := ih hnodup (Function.update prefs (OptionKey.key deviceId e.1) e.2)
    have hstep : view (applyEdits deviceId (e :: edits) prefs) deviceId k =
        (edits.lookup k).getD
          (view (Function.update prefs (OptionKey.key deviceId e.1) e.2) deviceId k) := hrest
    rw [hstep, List.lookup_cons]
    by_cases hk : k = e.1
    · have hnone : edits.lookup k = none := by
        apply List.lookup_eq_none_iff.2
        intro e' he'
        apply bne_iff_ne.2
        intro heq
        exact hnot (List.mem_map.2 ⟨e', he', heq.symm.trans hk⟩)
      rw [hnone, beq_iff_eq.2 hk, hk]
      exact Function.update_self ..
    · have hne : OptionKey.key deviceId k ≠ OptionKey.key deviceId e.1 := fun heq =>
        hk (OptionKey.key_inj heq).2
      have hview : view (Function.update prefs (OptionKey.key deviceId e.1) e.2) deviceId k =
          view prefs deviceId k := Function.update_of_ne hne ..
      rw [hview, beq_eq_false_iff_ne.2 hk]

/-! ## What was written comes back -/

/-- The entries that `write` leaves of a device. -/
def written (o : RdpOptions) : View := fun k => ((edits o).lookup k).getD none

theorem map_fst_edits (o : RdpOptions) : (edits o).map Prod.fst = OptionKey.entries := by
  rw [edits, gatewayEdits]
  cases o.gateway.filter fun g => !KotlinText.isBlank g.host with
  | none => rfl
  | some g => rfl

theorem view_write (o : RdpOptions) (deviceId : CodeUnits) (prefs : Prefs) :
    view (write o deviceId prefs) deviceId = written o := by
  have hkeys := map_fst_edits o
  have hnodup : ((edits o).map Prod.fst).Nodup := by
    rw [hkeys]
    exact List.Nodup.of_map _ OptionKey.nodup_names
  funext k
  rw [write, view_applyEdits hnodup, written]
  cases hlookup : (edits o).lookup k with
  | none =>
    have hmem : k ∈ (edits o).map Prod.fst := hkeys ▸ OptionKey.mem_entries k
    obtain ⟨e, he, rfl⟩ := List.mem_map.1 hmem
    exact absurd rfl (bne_iff_ne.1 (List.lookup_eq_none_iff.1 hlookup e he))
  | some v => rfl

/-- A string that is not blank, or none at all. -/
def NotBlank (s : Option CodeUnits) : Prop := ∀ t, s = some t → KotlinText.isBlank t = false

/-- The ranges of `of`, with blank strings as none. -/
structure InRange (o : RdpOptions) : Prop where
  pcTargetFps : o.pcTargetFps ∈ frameRates
  pcBitrateMbps : 5 ≤ o.pcBitrateMbps ∧ o.pcBitrateMbps ≤ 80
  micGainDb : -12 ≤ o.micGainDb ∧ o.micGainDb ≤ 24
  micGateDb : -70 ≤ o.micGateDb ∧ o.micGateDb ≤ 0
  lowBandwidth : o.streamProfile ≠ .dataSaver → o.lowBandwidth = false
  gateway : ∀ g, o.gateway = some g → KotlinText.isBlank g.host = false ∧
    NotBlank g.username ∧ NotBlank g.password ∧ NotBlank g.domain
  colorDepth : if o.streamProfile = .dataSaver then o.colorDepth ∈ colorDepths
    else o.colorDepth = 32
  targetFps : o.targetFps ∈ frameRates
  compressionLevel : 0 ≤ o.compressionLevel ∧ o.compressionLevel ≤ 2
  frameAck : 0 ≤ o.frameAck ∧ o.frameAck ≤ 10
  responsiveLoopMs : 0 ≤ o.responsiveLoopMs ∧ o.responsiveLoopMs ≤ 1000
  tlsSecLevel : -1 ≤ o.tlsSecLevel ∧ o.tlsSecLevel ≤ 2
  remoteProgram : NotBlank o.remoteProgram
  remoteWorkDir : NotBlank o.remoteWorkDir
  macAddress : NotBlank o.macAddress
  wolBroadcast : KotlinText.isBlank o.wolBroadcast = false
  wolPort : 1 ≤ o.wolPort ∧ o.wolPort ≤ 65535
  sshHost : NotBlank o.sshHost
  sshPort : 1 ≤ o.sshPort ∧ o.sshPort ≤ 65535
  sshUser : NotBlank o.sshUser
  sshLocalPort : 0 ≤ o.sshLocalPort ∧ o.sshLocalPort ≤ 65535

theorem coerceIn_eq_self {n low high : Int} (h : low ≤ n ∧ n ≤ high) :
    coerceIn n low high = n := by
  rw [coerceIn, if_neg (Int.not_lt.2 h.1), if_neg (Int.not_lt.2 h.2)]

theorem choose_eq_self {choices : List Int} {fallback n : Int} (h : n ∈ choices) :
    choose choices fallback n = n := if_pos h

/-- None and blank are written alike. -/
theorem ifBlank_orEmpty {s : Option CodeUnits} (h : NotBlank s) : ifBlank (orEmpty s) = s := by
  cases s with
  | none => rfl
  | some t =>
    rw [orEmpty, Option.getD_some, ifBlank, h t rfl]
    rfl

theorem entryAt_audioOrdinal (m : RdpUri.XyAudioMode) :
    entryAt audioModes (audioOrdinal m) .device = m := by
  cases m <;> rfl

theorem entryAt_securityOrdinal (p : RdpUri.XySecurityProtocol) :
    entryAt securityProtocols (securityOrdinal p) .auto = p := by
  cases p <;> rfl

theorem entryAt_gpuOrdinal (p : XyGpuProfile) : entryAt gpuProfiles (gpuOrdinal p) .auto = p := by
  cases p <;> rfl

theorem entryAt_engineOrdinal (e : XyPcStreamEngine) :
    entryAt pcStreamEngines (engineOrdinal e) .directGameUltra = e := by
  cases e <;> rfl

/-- The gateway comes back, or none for one without a host. -/
theorem readGateway_written (h : ∀ g, o.gateway = some g → KotlinText.isBlank g.host = false ∧
    NotBlank g.username ∧ NotBlank g.password ∧ NotBlank g.domain) :
    readGateway (written o) = some o.gateway := by
  cases hgateway : o.gateway with
  | none =>
    have hedits : gatewayEdits o.gateway =
        [remove .ghost, remove .gport, remove .guser, remove .gpass, remove .gdomain] := by
      rw [hgateway]
      rfl
    have hghost : getString (written o) .ghost [] = some [] := by
      rw [getString, written, edits, hedits]
      rfl
    rw [readGateway, hghost]
    rfl
  | some g =>
    obtain ⟨hhost, husername, hpassword, hdomain⟩ := h g hgateway
    have hedits : gatewayEdits o.gateway =
        [putString .ghost g.host, putInt .gport g.port, putString .guser (orEmpty g.username),
          putString .gpass (orEmpty g.password), putString .gdomain (orEmpty g.domain)] := by
      rw [hgateway, gatewayEdits, Option.filter_some, hhost]
      rfl
    have hreads : getString (written o) .ghost [] = some g.host ∧
        getInt (written o) .gport 443 = some g.port ∧
        getString (written o) .guser [] = some (orEmpty g.username) ∧
        getString (written o) .gpass [] = some (orEmpty g.password) ∧
        getString (written o) .gdomain [] = some (orEmpty g.domain) := by
      unfold getString getInt written edits
      rw [hedits]
      exact ⟨rfl, rfl, rfl, rfl, rfl⟩
    obtain ⟨hghost, hgport, hguser, hgpass, hgdomain⟩ := hreads
    rw [readGateway, hghost, hgport, hguser, hgpass, hgdomain]
    simp only [Option.bind_eq_bind, Option.bind_some, hhost, ifBlank_orEmpty husername,
      ifBlank_orEmpty hpassword, ifBlank_orEmpty hdomain]
    rfl

/-- What is read of the options that the URI is made from; the profile is given apart. -/
theorem readUriOptions_written (o : RdpOptions) {gateway : Option XyGateway}
    (p : RdpUri.XyStreamProfile)
    (h : readGateway (written { o with streamProfile := p }) = some gateway) :
    readUriOptions (written { o with streamProfile := p }) =
      some { o.toRdpOptions with
        audioMode := entryAt audioModes (audioOrdinal o.audioMode) .device
        gateway := gateway
        lowBandwidth := if p = .dataSaver then o.lowBandwidth else false
        streamProfile := p
        colorDepth := if p = .dataSaver then choose colorDepths 16 o.colorDepth else 32
        compressionLevel := coerceIn o.compressionLevel 0 2
        frameAck := coerceIn o.frameAck 0 10
        responsiveLoopMs := coerceIn o.responsiveLoopMs 0 1000
        securityProtocol := entryAt securityProtocols (securityOrdinal o.securityProtocol) .auto
        tlsSecLevel := coerceIn o.tlsSecLevel (-1) 2
        remoteProgram := ifBlank (orEmpty o.remoteProgram)
        remoteWorkDir := ifBlank (orEmpty o.remoteWorkDir) } := by
  rw [readUriOptions, h]
  cases p <;> rfl

theorem readUriOptions_written_of_inRange (h : InRange o) :
    readUriOptions (written o) = some o.toRdpOptions := by
  have hread := readUriOptions_written o o.streamProfile (readGateway_written h.gateway)
  have hlow : (if o.streamProfile = .dataSaver then o.lowBandwidth else false) =
      o.lowBandwidth := by
    split
    · rfl
    · rename_i hprofile
      exact (h.lowBandwidth hprofile).symm
  have hdepth : (if o.streamProfile = .dataSaver then choose colorDepths 16 o.colorDepth
      else 32) = o.colorDepth := by
    have hrange := h.colorDepth
    split
    · rename_i hprofile
      rw [if_pos hprofile] at hrange
      exact choose_eq_self hrange
    · rename_i hprofile
      rw [if_neg hprofile] at hrange
      exact hrange.symm
  rw [hlow, hdepth, entryAt_audioOrdinal, entryAt_securityOrdinal,
    coerceIn_eq_self h.compressionLevel, coerceIn_eq_self h.frameAck,
    coerceIn_eq_self h.responsiveLoopMs, coerceIn_eq_self h.tlsSecLevel,
    ifBlank_orEmpty h.remoteProgram, ifBlank_orEmpty h.remoteWorkDir] at hread
  exact hread

theorem readOptions_written {uriOptions : RdpUri.RdpOptions}
    (h : readUriOptions (written o) = some uriOptions) :
    readOptions (written o) =
      some { o with
        toRdpOptions := uriOptions
        pcStreamEngine := entryAt pcStreamEngines (engineOrdinal o.pcStreamEngine) .directGameUltra
        gpuProfile := entryAt gpuProfiles (gpuOrdinal o.gpuProfile) .auto
        pcTargetFps := choose frameRates 60 o.pcTargetFps
        pcBitrateMbps := coerceIn o.pcBitrateMbps 5 80
        micGainDb := coerceIn o.micGainDb (-12) 24
        micGateDb := coerceIn o.micGateDb (-70) 0
        targetFps := choose frameRates 60 o.targetFps
        macAddress := ifBlank (orEmpty o.macAddress)
        wolBroadcast := (ifBlank o.wolBroadcast).getD broadcast
        wolPort := coerceIn o.wolPort 1 65535
        sshHost := ifBlank (orEmpty o.sshHost)
        sshPort := coerceIn o.sshPort 1 65535
        sshUser := ifBlank (orEmpty o.sshUser)
        sshLocalPort := coerceIn o.sshLocalPort 0 65535 } := by
  rw [readOptions, h]
  rfl

/-- **Options in their ranges come back as they were written, and nothing changes for any
other device.** -/
theorem of_write (o : RdpOptions) (deviceId : CodeUnits) (prefs : Prefs) :
    (InRange o → of (write o deviceId prefs) deviceId = some o) ∧
      ∀ deviceId', deviceId' ≠ deviceId → of (write o deviceId prefs) deviceId' =
        of prefs deviceId' := by
  constructor
  · intro h
    have hread := readOptions_written (readUriOptions_written_of_inRange h)
    have hbroadcast : (ifBlank o.wolBroadcast).getD broadcast = o.wolBroadcast := by
      rw [ifBlank, h.wolBroadcast]
      rfl
    rw [entryAt_engineOrdinal, entryAt_gpuOrdinal, choose_eq_self h.pcTargetFps,
      coerceIn_eq_self h.pcBitrateMbps, coerceIn_eq_self h.micGainDb,
      coerceIn_eq_self h.micGateDb, choose_eq_self h.targetFps, ifBlank_orEmpty h.macAddress,
      hbroadcast, coerceIn_eq_self h.wolPort, ifBlank_orEmpty h.sshHost,
      coerceIn_eq_self h.sshPort, ifBlank_orEmpty h.sshUser,
      coerceIn_eq_self h.sshLocalPort] at hread
    rw [of, view_write]
    exact hread
  · intro deviceId' hne
    rw [of, of, write, view_applyEdits_of_ne hne]

/-- Options with a gateway, texts and the profile that saves data. -/
def saverOptions : RdpOptions where
  streamProfile := .dataSaver
  lowBandwidth := true
  colorDepth := 16
  gateway := some ⟨lit "gw.home", 8443, some (lit "user"), some (lit "secret"), some (lit "CORP")⟩
  remoteProgram := some (lit "notepad.exe")
  macAddress := some (lit "00:11:22:33:44:55")
  sshHost := some (lit "10.0.0.5")
  sshUser := some (lit "root")

/-- A file with entries of two devices, one of which has a name with a dot. -/
def twoDevices : Prefs := write {} (lit "pc:3389") (write {} (lit "pc.home:3389") fun _ => none)

/-- They replace the options of one device, and those of the other stay. -/
theorem of_write_saver :
    of (write saverOptions (lit "pc.home:3389") twoDevices) (lit "pc.home:3389") =
        some saverOptions ∧
      of (write saverOptions (lit "pc.home:3389") twoDevices) (lit "pc:3389") =
        of twoDevices (lit "pc:3389") := by
  have hwrite := of_write saverOptions (lit "pc.home:3389") twoDevices
  refine ⟨hwrite.1 ?_, hwrite.2 _ (by decide)⟩
  have hsome : ∀ {t : CodeUnits}, KotlinText.isBlank t = false → NotBlank (some t) :=
    fun h _ heq => Option.some.inj heq ▸ h
  refine ⟨?_, ?_, ?_, ?_, ?_, fun g hg => ?_, ?_, ?_, ?_, ?_, ?_, ?_, ?_, ?_, ?_, ?_, ?_, ?_, ?_,
    ?_, ?_⟩
  rotate_left 5
  · rw [← Option.some.inj hg]
    exact ⟨by decide, hsome (by decide), hsome (by decide), hsome (by decide)⟩
  all_goals first
    | decide
    | exact hsome (by decide)
    | exact nofun

/-! ## What `clear` leaves -/

/-- The file behind a run of writes, of whatever devices. -/
def writeAll (writes : List (CodeUnits × RdpOptions)) : Prefs :=
  writes.foldl (fun prefs w => write w.2 w.1 prefs) fun _ => none

/-- What the last write of a device was. -/
def lastWritten (deviceId : CodeUnits) (writes : List (CodeUnits × RdpOptions)) :
    Option RdpOptions :=
  (writes.reverse.find? fun w => w.1 = deviceId).map Prod.snd

/-- **The entries of a device are those of its last write.** -/
theorem view_writeAll (writes : List (CodeUnits × RdpOptions)) (deviceId : CodeUnits) :
    view (writeAll writes) deviceId =
      (lastWritten deviceId writes).elim (fun _ => none) written := by
  induction writes using List.reverseRecOn with
  | nil => rfl
  | append_singleton writes w ih =>
    have hstep : writeAll (writes ++ [w]) = write w.2 w.1 (writeAll writes) := by
      simp only [writeAll, List.foldl_append, List.foldl_cons, List.foldl_nil]
    have hreverse : (writes ++ [w]).reverse = w :: writes.reverse := by
      rw [List.reverse_append, List.reverse_singleton, List.singleton_append]
    rw [hstep, lastWritten, hreverse]
    by_cases hid : w.1 = deviceId
    · rw [List.find?_cons, decide_eq_true hid]
      exact hid ▸ view_write ..
    · rw [List.find?_cons, decide_eq_false hid, write,
        view_applyEdits_of_ne (Ne.symm hid), ih, lastWritten]

theorem lastWritten_eq_none_iff {writes : List (CodeUnits × RdpOptions)} :
    lastWritten deviceId writes = none ↔ ∀ w ∈ writes, w.1 ≠ deviceId := by
  rw [lastWritten, Option.map_eq_none_iff, List.find?_eq_none]
  constructor
  · intro h w hw hid
    exact h w (List.mem_reverse.2 hw) (decide_eq_true hid)
  · intro h w hw hid
    exact h w (List.mem_reverse.1 hw) (of_decide_eq_true hid)

theorem view_clear (prefs : Prefs) (deviceId : CodeUnits) (k : OptionKey) :
    view (clear deviceId prefs) deviceId k =
      if k ∈ clearedKeys then none else view prefs deviceId k := by
  have hkeys : (clearedKeys.map remove).map Prod.fst = clearedKeys := rfl
  rw [clear, view_applyEdits (by rw [hkeys]; decide)]
  cases hlookup : (clearedKeys.map remove).lookup k with
  | none =>
    have hnot : k ∉ clearedKeys := by
      intro hmem
      have hne := List.lookup_eq_none_iff.1 hlookup (remove k) (List.mem_map_of_mem hmem)
      exact absurd rfl (bne_iff_ne.1 hne)
    rw [if_neg hnot]
    rfl
  | some v =>
    obtain ⟨l, l', hsplit, -⟩ := List.lookup_eq_some_iff.1 hlookup
    have hmem : (k, v) ∈ clearedKeys.map remove := by
      rw [hsplit]
      exact List.mem_append_right l List.mem_cons_self
    obtain ⟨k', hk', heq⟩ := List.mem_map.1 hmem
    cases heq
    rw [if_pos hk']
    rfl

/-- Nothing is left of a device, and everything of the others. -/
structure Forgets (prefs : Prefs) (deviceId : CodeUnits) : Prop where
  nothing : ∀ k, clear deviceId prefs (OptionKey.key deviceId k) = none
  fresh : of (clear deviceId prefs) deviceId = of (fun _ => none) deviceId
  others : ∀ s, (∀ k, s ≠ OptionKey.key deviceId k) → clear deviceId prefs s = prefs s

/-- What is not an entry of the device stays. -/
theorem clear_of_ne {s : CodeUnits} (h : ∀ k, s ≠ OptionKey.key deviceId k) :
    clear deviceId prefs s = prefs s :=
  applyEdits_of_ne fun e _ => h e.1

/-- **Something is left of every device that was ever written.** -/
theorem clear_forgets_iff (writes : List (CodeUnits × RdpOptions)) (deviceId : CodeUnits) :
    Forgets (writeAll writes) deviceId ↔ ∀ w ∈ writes, w.1 ≠ deviceId := by
  have hview := view_writeAll writes deviceId
  rw [← lastWritten_eq_none_iff]
  constructor
  · intro h
    cases hlast : lastWritten deviceId writes with
    | none => rfl
    | some o =>
      -- no `clear` removes this one
      have hleft := (view_clear (writeAll writes) deviceId .quic_audio).symm.trans (h.nothing _)
      rw [if_neg (by decide), hview, hlast] at hleft
      exact absurd hleft nofun
  · intro hlast
    have hempty : view (clear deviceId (writeAll writes)) deviceId = fun _ => none := by
      funext k
      rw [view_clear, hview, hlast]
      exact ite_self none
    refine ⟨fun k => congrFun hempty k, ?_, fun s => clear_of_ne⟩
    rw [of, hempty]
    rfl

/-- **A device whose sound was not to come over QUIC**, deleted and added again. -/
theorem clear_keeps_quic_audio :
    ¬ Forgets (writeAll [(lit "pc:3389", { quicAudio := false })]) (lit "pc:3389") ∧
      (of (clear (lit "pc:3389") (writeAll [(lit "pc:3389", { quicAudio := false })]))
        (lit "pc:3389")).map RdpOptions.quicAudio = some false ∧
      (of (fun _ => none) (lit "pc:3389")).map RdpOptions.quicAudio = some true := by
  have hread : (of (clear (lit "pc:3389") (writeAll [(lit "pc:3389", { quicAudio := false })]))
      (lit "pc:3389")).map RdpOptions.quicAudio = some false := by
    have hclear : view (clear (lit "pc:3389") (writeAll [(lit "pc:3389", { quicAudio := false })]))
        (lit "pc:3389") = fun k => if k ∈ clearedKeys then none
          else written { quicAudio := false } k := by
      funext k
      rw [view_clear, view_writeAll]
      rfl
    rw [of, hclear]
    rfl
  refine ⟨?_, hread, rfl⟩
  intro h
  rw [h.fresh] at hread
  exact absurd hread nofun

end RdpOptionsStore
