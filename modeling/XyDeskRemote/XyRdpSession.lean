/-
# Whether a remote desktop session is live

`evaluateSession` puts three records together that were fetched one after the other and may be
stale: the run of the workflow, the status file that it publishes, and the progress of its steps.
The phase, the host and the flag are computed one by one.
-/
import XyDeskRemote.KotlinText

open WorkerText (lit)
open KotlinText

/-! ## The records -/

/-- `XyRdpAccess`, the status file: the fields that are read here. -/
structure XyRdpAccess where
  runId : CodeUnits
  runAttempt : ℤ
  active : Bool
  expiresAtMillis : ℤ
  heartbeatAgeSec : Option ℤ
  mode : CodeUnits
  tunnelStatus : CodeUnits
  tunnelHost : CodeUnits
  tunnelPort : ℤ
  tailscaleIp : CodeUnits
  portmapStatus : CodeUnits
  portmapHost : CodeUnits
  portmapPort : ℤ

/-- A run of the workflow. -/
structure XyRdpRun where
  id : ℤ
  number : ℤ
  attempt : ℤ
  status : CodeUnits
  conclusion : Option CodeUnits

/-- The steps of the run. -/
structure XyRdpStepProgress where
  currentStep : Option CodeUnits
  failedStep : Option CodeUnits
  completedSteps : ℤ
  totalSteps : ℤ

/-- The phases of a session. -/
inductive XyRdpPhase where
  | idle
  | queued
  | preparing
  | ready
  | failed
  | cancelled
  | stopped
  deriving DecidableEq

/-- What `evaluateSession` answers. -/
structure XyRdpValidatedSession where
  phase : XyRdpPhase
  phaseLabel : CodeUnits
  run : Option XyRdpRun
  progress : Option XyRdpStepProgress
  access : Option XyRdpAccess
  isVerifiedLive : Bool
  remainingSeconds : Option ℤ
  validatedHost : Option CodeUnits
  validatedPort : ℤ
  validatedTransport : Option CodeUnits
  validationNote : Option CodeUnits
  diagnostics : List CodeUnits
  needsManualRefresh : Bool

namespace XyRdp

/-! ## Hosts -/

/-- `[A-Za-z]`. -/
def isAsciiLetter (u : UInt16) : Bool := (0x41 ≤ u && u ≤ 0x5A) || (0x61 ≤ u && u ≤ 0x7A)

/-- `[A-Za-z0-9]`. -/
def isAsciiAlphanumeric (u : UInt16) : Bool := isAsciiLetter u || (0x30 ≤ u && u ≤ 0x39)

/-- `[a-zA-Z0-9](?:[a-zA-Z0-9-]{0,61}[a-zA-Z0-9])?`. -/
def isHostLabel (s : CodeUnits) : Bool :=
  1 ≤ s.length && s.length ≤ 63 && s.all (fun u => isAsciiAlphanumeric u || u = 0x2D) &&
    (s.head?.all isAsciiAlphanumeric) && (s.getLast?.all isAsciiAlphanumeric)

/-- `[a-zA-Z]{2,63}`. -/
def isTopLabel (s : CodeUnits) : Bool := 2 ≤ s.length && s.length ≤ 63 && s.all isAsciiLetter

/-- `HOSTNAME_REGEX.matches`: labels with a dot behind each, and one of letters. -/
def isHostname (s : CodeUnits) : Bool :=
  let labels := s.splitOn 0x2E
  s.length ≤ 253 && 2 ≤ labels.length && labels.dropLast.all isHostLabel &&
    (labels.getLast?.all isTopLabel)

/-- `isValidTailscaleIpv4`: an address in 100.64/10. -/
def isValidTailscaleIpv4 (ip : CodeUnits) : Bool :=
  match ((trim ip).splitOn 0x2E).mapM toIntOrNull with
  | some [a, b, c, d] =>
    [a, b, c, d].all (fun n => 0 ≤ n && n ≤ 255) && a = 100 && 64 ≤ b && b ≤ 127
  | _ => false

/-- `s.ifBlank { default }`. -/
def ifBlank (s default : CodeUnits) : CodeUnits := if isBlank s then default else s

/-- `port in 1..65535`. -/
def isPort (port : ℤ) : Bool := 1 ≤ port && port ≤ 65535

/-- The host, the port and the transport that a status file leads to. -/
def connection (access : XyRdpAccess) : Option (CodeUnits × ℤ × CodeUnits) :=
  if access.mode = lit "portmap" then
    let pmHost := ifBlank access.portmapHost access.tunnelHost
    let pmPort := if 0 < access.portmapPort then access.portmapPort else access.tunnelPort
    if (access.portmapStatus = lit "ok" ∨ access.tunnelStatus = lit "ok") ∧ isHostname pmHost ∧
        isPort pmPort then
      some (pmHost, pmPort, lit "portmap")
    else none
  else
    let tsIp := ifBlank access.tailscaleIp access.tunnelHost
    if isValidTailscaleIpv4 tsIp then
      some (tsIp, if isPort access.tunnelPort then access.tunnelPort else 3389, lit "tailscale")
    else if ¬ isBlank access.tunnelHost ∧ isPort access.tunnelPort then
      some (access.tunnelHost, access.tunnelPort, ifBlank access.mode (lit "tunnel"))
    else none

/-! ## The conditions -/

/-- The run goes on. -/
def isInProgress (run : XyRdpRun) : Bool := run.status = lit "in_progress"

/-- The run has not begun. -/
def isPending (run : XyRdpRun) : Bool :=
  run.status ∈ [lit "queued", lit "waiting", lit "requested", lit "pending"]

/-- The status file is not that of another run. -/
def matchesRun (run : XyRdpRun) (access : XyRdpAccess) : Bool :=
  (isBlank access.runId || access.runId = decimalInt run.id) &&
    (access.runAttempt ≤ 0 || access.runAttempt = run.attempt)

/-- The expiry is absent or lies in the future. -/
def notExpired (access : XyRdpAccess) (nowMillis : ℤ) : Bool :=
  access.expiresAtMillis ≤ 0 || nowMillis < access.expiresAtMillis

section

variable (run : Option XyRdpRun) (access : Option XyRdpAccess)
  (progress : Option XyRdpStepProgress) (nowMillis : ℤ)

/-- The step that failed. -/
def fatalStep : Option CodeUnits := progress.bind XyRdpStepProgress.failedStep

/-- There is a run, and it goes on. -/
def isRunInProgress : Bool := run.any isInProgress

/-- There is a run, and it has not begun. -/
def isRunPending : Bool := run.any isPending

/-- The file is of the run, or does not say of which. -/
def runIdMatches : Bool := run.any fun run => access.any (matchesRun run)

/-- There is a file that has not expired. -/
def isNotExpired : Bool := access.any (notExpired · nowMillis)

/-- The run goes on, and the file is its own and active. -/
def isCurrentLive : Bool :=
  isRunInProgress run && runIdMatches run access && access.any XyRdpAccess.active &&
    isNotExpired access nowMillis && (fatalStep progress).isNone

/-- `validHost`, `validPort` and `transport`. -/
def validConnection : Option (CodeUnits × ℤ × CodeUnits) :=
  if isCurrentLive run access progress nowMillis then access.bind connection else none

/-- The phase. -/
def phase : XyRdpPhase :=
  match run with
  | none => .idle
  | some r =>
    if r.status = lit "completed" then
      if r.conclusion = some (lit "success") then .stopped
      else if r.conclusion = some (lit "cancelled") then .cancelled
      else .failed
    else if (fatalStep progress).isSome then .failed
    else if isRunPending run then .queued
    else if isCurrentLive run access progress nowMillis ∧
        (validConnection run access progress nowMillis).isSome then .ready
    else if isRunInProgress run then .preparing
    else .stopped

/-! ## What the user is told -/

/-- The text of a phase. -/
def phaseLabel (phase : XyRdpPhase) : CodeUnits :=
  match phase with
  | .idle => lit "Belum ada sesi aktif"
  | .queued => lit "Menunggu runner GitHub Actions…"
  | .preparing =>
    let step := (progress.bind XyRdpStepProgress.currentStep).getD []
    let ratio := progress.elim [] fun p =>
      if 0 < p.totalSteps then
        lit " (" ++ decimalInt p.completedSteps ++ lit "/" ++ decimalInt p.totalSteps ++ lit ")"
      else []
    if isBlank step then lit "Workflow berjalan — menyiapkan koneksi RDP" ++ ratio ++ lit "…"
    else lit "Menyiapkan sesi" ++ ratio ++ lit ": " ++ step
  | .ready => lit "ONLINE & TERVALIDASI — Siap Disambungkan"
  | .failed =>
    let step := (fatalStep progress).getD []
    if isBlank step then lit "Workflow gagal — periksa Secrets atau log GitHub Actions"
    else lit "Gagal pada tahap: " ++ step
  | .cancelled => lit "Sesi dibatalkan oleh pengguna"
  | .stopped => lit "Sesi telah berakhir / nonaktif"

/-- A `Long` that a division by 1000 follows. -/
def remainingSeconds : Option ℤ :=
  access.bind fun a =>
    if isCurrentLive run access progress nowMillis ∧ nowMillis < a.expiresAtMillis then
      some ((Int.bmod (a.expiresAtMillis - nowMillis) (2 ^ 64)).tdiv 1000)
    else none

/-- `run?.number` in a text. -/
def runNumber (absent : CodeUnits) : CodeUnits :=
  run.elim absent fun r => decimalInt r.number

/-- The note to a phase. -/
def validationNote (phase : XyRdpPhase) : Option CodeUnits :=
  match phase, validConnection run access progress nowMillis with
  | .ready, some (host, port, transport) =>
    let heartbeat := match access.bind XyRdpAccess.heartbeatAgeSec with
      | some age => if 0 ≤ age then lit " · Heartbeat " ++ decimalInt age ++ lit "d lalu" else []
      | none => []
    some (lit "Terverifikasi cocok dengan Run #" ++ runNumber run (lit "null") ++ lit " (" ++
      transport ++ lit " → " ++ host ++ lit ":" ++ decimalInt port ++ lit ")" ++ heartbeat)
  | _, _ =>
    if isRunInProgress run ∧ access.isSome ∧ ¬ runIdMatches run access then
      some (lit "Mengabaikan file status lama dari run sebelumnya — menunggu run #" ++
        runNumber run (lit "null") ++ lit " mempublikasikan IP baru…")
    else if ¬ isRunInProgress run ∧ access.any XyRdpAccess.active then
      some (lit "File status di branch masih tertulis aktif, tetapi workflow GitHub sudah " ++
        lit "berhenti (sesi sudah mati).")
    else none

/-- What is said of the run. -/
def runDiagnostics : List CodeUnits :=
  match run with
  | none =>
    [lit "Belum ada run workflow rdp-6h.yml yang terbaca di repo XyRDP milik akun ini."]
  | some r =>
    if isInProgress r then []
    else [lit "Run #" ++ decimalInt r.number ++ lit " berstatus " ++ r.status ++ lit " (" ++
      r.conclusion.getD (lit "selesai") ++
      lit ") — aplikasi hanya menganggap sesi hidup saat run masih berjalan."]

/-- What is said of the status file. -/
def accessDiagnostics : List CodeUnits :=
  match access with
  | none =>
    [lit "rdp-status.json tidak ditemukan di branch 'status' repo XyRDP " ++
      lit "(atau out/rdp-status.json)."]
  | some a =>
    (if a.active then [] else [lit "rdp-status.json menandai sesi tidak aktif."]) ++
    (if notExpired a nowMillis then []
      else [lit "Waktu sesi di rdp-status.json sudah kedaluwarsa."]) ++
    (if runIdMatches run access then []
      else [lit "run_id/attempt di rdp-status.json tidak cocok dengan run #" ++
        runNumber run (lit "?") ++ lit " — kemungkinan sisa sesi lama."]) ++
    (if isBlank a.tailscaleIp ∧ isBlank a.tunnelHost ∧ isBlank a.portmapHost then
      [lit "Belum ada alamat Tailscale / Portmap / tunnel yang valid."] else [])

/-- Why a session is not ready. -/
def diagnostics (phase : XyRdpPhase) : List CodeUnits :=
  if phase = .ready then []
  else
    runDiagnostics run ++ accessDiagnostics run access nowMillis ++
    ((fatalStep progress).elim [] fun step =>
      [lit "Ada tahap workflow yang gagal: " ++ step ++ lit "."]) ++
    (if run.any fun r => r.status = lit "completed" then
      [lit "Workflow dijalankan di luar aplikasi? Jalankan ulang lewat tombol di sini supaya " ++
        lit "run_id sinkron."] else [])

/-- `evaluateSession`. -/
def evaluateSession : XyRdpValidatedSession :=
  let valid := validConnection run access progress nowMillis
  let ph := phase run access progress nowMillis
  { phase := ph
    phaseLabel := phaseLabel progress ph
    run := run
    progress := progress
    access := if isCurrentLive run access progress nowMillis then access else none
    isVerifiedLive := ph = .ready ∧ valid.isSome
    remainingSeconds := remainingSeconds run access progress nowMillis
    validatedHost := valid.map Prod.fst
    validatedPort := valid.elim 3389 fun c => c.2.1
    validatedTransport := valid.map fun c => c.2.2
    validationNote := validationNote run access progress nowMillis ph
    diagnostics := diagnostics run access progress nowMillis ph
    needsManualRefresh := ph ≠ .ready ∧ run.isSome ∧
      (run.any (fun r => r.status = lit "completed") ∨ ¬ runIdMatches run access) }

end

/-! ## When a session is live -/

/-- What the records are said to guarantee: the status file is exactly that of the run, its expiry
lies in the future, and the host is a name or an address of the private network. -/
structure NamedLive (run : XyRdpRun) (access : XyRdpAccess) (progress : Option XyRdpStepProgress)
    (nowMillis : ℤ) (host : CodeUnits) (port : ℤ) : Prop where
  inProgress : isInProgress run
  runId : access.runId = decimalInt run.id
  attempt : access.runAttempt = run.attempt
  active : access.active
  expiry : nowMillis < access.expiresAtMillis
  step : fatalStep progress = none
  host : isHostname host ∨ isValidTailscaleIpv4 host
  port : isPort port

/-- The host and the port that a status file leads to: a host name with a port of its own, an
address of the private network, or whatever a tunnel has. -/
inductive Connects (access : XyRdpAccess) : CodeUnits → ℤ → Prop where
  | portmap {host : CodeUnits} {port : ℤ} (mode : access.mode = lit "portmap")
      (status : access.portmapStatus = lit "ok" ∨ access.tunnelStatus = lit "ok")
      (hhost : host = ifBlank access.portmapHost access.tunnelHost) (name : isHostname host)
      (hport : port = if 0 < access.portmapPort then access.portmapPort else access.tunnelPort)
      (range : isPort port) : Connects access host port
  | tailscale {host : CodeUnits} {port : ℤ} (mode : access.mode ≠ lit "portmap")
      (hhost : host = ifBlank access.tailscaleIp access.tunnelHost)
      (address : isValidTailscaleIpv4 host)
      (hport : port = if isPort access.tunnelPort then access.tunnelPort else 3389) :
      Connects access host port
  | tunnel (mode : access.mode ≠ lit "portmap")
      (address : ¬ isValidTailscaleIpv4 (ifBlank access.tailscaleIp access.tunnelHost))
      (host : ¬ isBlank access.tunnelHost) (range : isPort access.tunnelPort) :
      Connects access access.tunnelHost access.tunnelPort

/-- What the code checks: the status file does not name another run, attempt or an expiry in the
past. -/
structure Live (run : XyRdpRun) (access : XyRdpAccess) (progress : Option XyRdpStepProgress)
    (nowMillis : ℤ) (host : CodeUnits) (port : ℤ) : Prop where
  inProgress : isInProgress run
  runId : isBlank access.runId ∨ access.runId = decimalInt run.id
  attempt : access.runAttempt ≤ 0 ∨ access.runAttempt = run.attempt
  active : access.active
  expiry : access.expiresAtMillis ≤ 0 ∨ nowMillis < access.expiresAtMillis
  step : fatalStep progress = none
  connects : Connects access host port
  port : isPort port

section

variable {run : Option XyRdpRun} {access : Option XyRdpAccess}
  {progress : Option XyRdpStepProgress} {nowMillis : ℤ} {a : XyRdpAccess} {r : XyRdpRun}
  {host : CodeUnits} {port : ℤ}

theorem Connects.isPort (h : Connects a host port) : isPort port := by
  cases h with
  | portmap _ _ _ _ _ range => exact range
  | tailscale _ _ _ hport =>
    rw [hport]
    split_ifs with hrange
    · exact hrange
    · decide
  | tunnel _ _ _ range => exact range

theorem connects_iff :
    Connects a host port ↔ ∃ transport, connection a = some (host, port, transport) := by
  unfold connection
  constructor
  · rintro (⟨mode, status, rfl, name, rfl, range⟩ | ⟨mode, rfl, address, rfl⟩ |
      ⟨mode, address, hhost, range⟩)
    · rw [if_pos mode]
      dsimp only
      rw [if_pos ⟨status, name, range⟩]
      exact ⟨_, rfl⟩
    · rw [if_neg mode]
      dsimp only
      rw [if_pos address]
      exact ⟨_, rfl⟩
    · rw [if_neg mode]
      dsimp only
      rw [if_neg address, if_pos ⟨hhost, range⟩]
      exact ⟨_, rfl⟩
  · rintro ⟨transport, h⟩
    by_cases mode : a.mode = lit "portmap"
    · rw [if_pos mode] at h
      obtain ⟨⟨status, name, range⟩, h⟩ := Option.ite_none_right_eq_some.1 h
      cases h
      exact .portmap mode status rfl name rfl range
    · rw [if_neg mode] at h
      dsimp only at h
      by_cases address : isValidTailscaleIpv4 (ifBlank a.tailscaleIp a.tunnelHost)
      · rw [if_pos address] at h
        cases h
        exact .tailscale mode rfl address rfl
      · rw [if_neg address] at h
        obtain ⟨⟨hhost, range⟩, h⟩ := Option.ite_none_right_eq_some.1 h
        cases h
        exact .tunnel mode address hhost range

/-- A status file that leads somewhere is that of a run that goes on. -/
theorem validConnection_eq_some {transport : CodeUnits} :
    validConnection run access progress nowMillis = some (host, port, transport) ↔
      ∃ r a, run = some r ∧ access = some a ∧ isInProgress r ∧ matchesRun r a ∧ a.active ∧
        notExpired a nowMillis ∧ fatalStep progress = none ∧
        connection a = some (host, port, transport) := by
  unfold validConnection isCurrentLive isRunInProgress runIdMatches isNotExpired
  cases run with
  | none => simp
  | some r =>
    cases access with
    | none => simp
    | some a => simp [and_assoc]

/-- With a host the phase is that of a live session. -/
theorem phase_eq_ready_iff :
    phase run access progress nowMillis = .ready ↔
      (validConnection run access progress nowMillis).isSome := by
  constructor
  · intro h
    unfold phase at h
    cases run with
    | none => cases h
    | some r =>
      dsimp only at h
      split_ifs at h with _ _ _ _ _ hlive
      exact hlive.2
  · intro h
    obtain ⟨⟨host, port, transport⟩, hvalid⟩ := Option.isSome_iff_exists.1 h
    obtain ⟨r, a, rfl, rfl, hprogress, hmatch, hactive, hexpiry, hstep, -⟩ :=
      validConnection_eq_some.1 hvalid
    have hstatus : r.status = lit "in_progress" := of_decide_eq_true hprogress
    have hcompleted : r.status ≠ lit "completed" := by
      rw [hstatus]
      decide
    have hpending : isPending r = false := by
      unfold isPending
      rw [hstatus]
      decide
    have hlive : isCurrentLive (some r) (some a) progress nowMillis = true := by
      simp [isCurrentLive, isRunInProgress, runIdMatches, isNotExpired, hprogress, hmatch,
        hactive, hexpiry, hstep]
    unfold phase
    dsimp only
    rw [if_neg hcompleted, if_neg (by rw [hstep]; exact Bool.false_ne_true),
      if_neg (by unfold isRunPending; rw [Option.any_some, hpending]; exact Bool.false_ne_true),
      if_pos ⟨hlive, h⟩]

/-- **When a session is shown as live.**  The phase, the flag and the host agree, and they say so
exactly when the run goes on, no step failed, and the status file is active, does not name another
run or attempt or an expiry in the past, and leads to a host with a port. -/
theorem ready_iff (run : Option XyRdpRun) (access : Option XyRdpAccess)
    (progress : Option XyRdpStepProgress) (nowMillis : ℤ) :
    let s := evaluateSession run access progress nowMillis
    (s.isVerifiedLive = true ↔ s.phase = .ready) ∧
      (s.validatedHost.isSome ↔ s.phase = .ready) ∧
      ∀ host port, s.phase = .ready ∧ s.validatedHost = some host ∧ s.validatedPort = port ↔
        ∃ r a, run = some r ∧ access = some a ∧ Live r a progress nowMillis host port := by
  have hready := @phase_eq_ready_iff run access progress nowMillis
  dsimp only [evaluateSession]
  refine ⟨?_, ?_, ?_⟩
  · rw [decide_eq_true_iff, hready]
    exact ⟨fun h => h.1, fun h => ⟨h, h⟩⟩
  · rw [Option.isSome_map, hready]
  · intro host port
    rw [hready]
    constructor
    · rintro ⟨hsome, hhost, hport⟩
      obtain ⟨⟨host', port', transport⟩, hvalid⟩ := Option.isSome_iff_exists.1 hsome
      rw [hvalid] at hhost hport
      cases hhost
      cases hport
      obtain ⟨r, a, hr, ha, hprogress, hmatch, hactive, hexpiry, hstep, hconnection⟩ :=
        validConnection_eq_some.1 hvalid
      have hconnects := connects_iff.2 ⟨transport, hconnection⟩
      unfold matchesRun at hmatch
      unfold notExpired at hexpiry
      simp only [Bool.and_eq_true, Bool.or_eq_true, decide_eq_true_eq] at hmatch hexpiry
      exact ⟨r, a, hr, ha, hprogress, hmatch.1, hmatch.2, hactive, hexpiry, hstep, hconnects,
        hconnects.isPort⟩
    · rintro ⟨r, a, hr, ha, hlive⟩
      obtain ⟨transport, hconnection⟩ := connects_iff.1 hlive.connects
      have hmatch : matchesRun r a := by
        unfold matchesRun
        simp only [Bool.and_eq_true, Bool.or_eq_true, decide_eq_true_eq]
        exact ⟨hlive.runId, hlive.attempt⟩
      have hexpiry : notExpired a nowMillis := by
        unfold notExpired
        simp only [Bool.or_eq_true, decide_eq_true_eq]
        exact hlive.expiry
      have hvalid : validConnection run access progress nowMillis = some (host, port, transport) :=
        validConnection_eq_some.2 ⟨r, a, hr, ha, hlive.inProgress, hmatch, hlive.active, hexpiry,
          hlive.step, hconnection⟩
      rw [hvalid]
      exact ⟨rfl, rfl, rfl⟩

end

/-- A status file that names no run, no attempt and no expiry, of a tunnel to some name. -/
def blankFile : XyRdpAccess where
  runId := []
  runAttempt := 0
  active := true
  expiresAtMillis := 0
  heartbeatAgeSec := none
  mode := lit "tunnel"
  tunnelStatus := []
  tunnelHost := lit "vps"
  tunnelPort := 12345
  tailscaleIp := []
  portmapStatus := []
  portmapHost := []
  portmapPort := 0

/-- With such a file any run that goes on makes a live session, though neither the run nor the
attempt nor the expiry is there, and the host is neither a host name nor an address. -/
theorem blankFile_not_namedLive :
    let run : XyRdpRun := ⟨889, 16, 1, lit "in_progress", none⟩
    let s := evaluateSession (some run) (some blankFile) none 1700000000000
    s.phase = .ready ∧ s.isVerifiedLive ∧ s.validatedHost = some (lit "vps") ∧
      s.validatedPort = 12345 ∧
      ¬ NamedLive run blankFile none 1700000000000 (lit "vps") 12345 ∧
      blankFile.runId ≠ decimalInt run.id ∧ blankFile.runAttempt ≠ run.attempt ∧
      ¬ 1700000000000 < blankFile.expiresAtMillis ∧
      ¬ (isHostname (lit "vps") ∨ isValidTailscaleIpv4 (lit "vps")) := by
  have hexpiry : ¬ (1700000000000 : ℤ) < blankFile.expiresAtMillis := by decide
  exact ⟨by decide, by decide, by decide, by decide, fun h => hexpiry h.expiry, by decide,
    by decide, hexpiry, by decide⟩

end XyRdp
