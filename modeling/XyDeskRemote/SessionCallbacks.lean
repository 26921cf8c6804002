/-
# Callbacks of the native core

What the listeners of an instance do to the manager: `coreListenerFor` handles the events
that `GlobalApp` dispatches, `uiListenerFor` the calls of the native thread.  The fields
about the remote desktop (its resolution, the layout last asked for, the colour depth) join
the lifecycle fields of `SessionManager`, together with everything else that writes them:
`connect` and `resizeRemote`.

Most callbacks ask `isCurrent` or touch none of these fields.  Two do neither:
`OnSettingsChanged` and `OnGraphicsResize` record the size of whatever instance calls.
-/
import XyDeskRemote.SessionLifecycle

open LabelledRun SessionManager Option

/-! ## The remote desktop -/

/-- What the manager calls on its graphics sink and its listener from a callback. -/
inductive OutwardCall where
  | sessionInstanceBound (inst : Instance)
  | graphicsResize (width height bpp : ℤ)
  | graphicsUpdate (x y width height : ℤ)
  | pointerSet (pixels : Option (List ℤ)) (width height hotX hotY : ℤ)
  | pointerSetNull
  | pointerSetDefault
  | credentialsPrompt (username domain : String)
  | certificatePrompt (host : String) (port : ℤ)
  | remoteClipboardText (data : String)
  | remoteClipboardImage (data : List UInt8)
  deriving DecidableEq, Repr

/-- The manager with the fields of the remote desktop. -/
structure SessionDesktop where
  manager : SessionManager := {}
  sink : Bool := false
  resolution : ℤ × ℤ := (0, 0)
  activeBpp : ℤ := 32
  lastDispLayoutW : ℤ := 0
  lastDispLayoutH : ℤ := 0
  lastDispScale : ℤ := 100
  lastDispSentAtMs : ℕ := 0
  calls : List OutwardCall := []
  deriving DecidableEq, Repr

/-- The calls of `LibFreeRDP.UIEventListener`; the six of RAIL have empty bodies. -/
inductive UiCallback where
  | settingsChanged (width height bpp : ℤ)
  | authenticate (username domain : String)
  | gatewayAuthenticate (username domain : String)
  | verifyCertificate (host : String) (port : ℤ)
  | verifyChangedCertificate (host : String) (port : ℤ)
  | experimentalFeature (feature : ℤ)
  | graphicsUpdate (x y width height : ℤ)
  | graphicsResize (width height bpp : ℤ)
  | remoteClipboardChanged (data : String)
  | remoteClipboardImageChanged (data : Option (List UInt8))
  | pointerSet (pixels : Option (List ℤ)) (width height hotX hotY : ℤ)
  | pointerSetNull
  | pointerSetDefault
  | rail
  deriving DecidableEq, Repr

/-- A callback of either listener: a call of the native thread, or an event with the native
error text and the clock of the moment it is handled. -/
inductive SessionCallback where
  | ui (cb : UiCallback)
  | core (event : NativeEvent) (nativeDetail : String) (now : ℕ)
  deriving DecidableEq, Repr

namespace SessionDesktop

/-! ## The listeners -/

/-- `sink?.…`. -/
def toSink (call : OutwardCall) (d : SessionDesktop) : SessionDesktop :=
  if d.sink then { d with calls := d.calls ++ [call] } else d

/-- `listener?.…`. -/
def toListener (call : OutwardCall) (d : SessionDesktop) : SessionDesktop :=
  if d.manager.listener then { d with calls := d.calls ++ [call] } else d

/-- `OnSettingsChanged` and `OnGraphicsResize`: the size is recorded and passed on. -/
def recordSize (inst : Instance) (width height bpp : ℤ) (d : SessionDesktop) : SessionDesktop :=
  let d₁ : SessionDesktop :=
    { d with
      resolution := (width, height)
      lastDispLayoutW := width
      lastDispLayoutH := height
      activeBpp := if 0 < bpp then bpp else d.activeBpp }
  let d₂ := toSink (.sessionInstanceBound inst) d₁
  if 0 < width ∧ 0 < height then toSink (.graphicsResize width height bpp) d₂ else d₂

/-- `OnAuthenticate`, up to the prompt. -/
def onAuthenticate (inst : Instance) (username domain : String) (d : SessionDesktop) :
    SessionDesktop :=
  if d.manager.listener ∧ d.manager.isCurrent inst then
    toListener (.credentialsPrompt username domain)
      { d with manager := d.manager.onAuthenticate inst }
  else d

/-- `uiListenerFor`. -/
def uiListenerFor (inst : Instance) (d : SessionDesktop) : UiCallback → SessionDesktop
  | .settingsChanged width height bpp => recordSize inst width height bpp d
  | .authenticate username domain => onAuthenticate inst username domain d
  | .gatewayAuthenticate username domain => onAuthenticate inst username domain d
  | .verifyCertificate host port => toListener (.certificatePrompt host port) d
  | .verifyChangedCertificate host port => toListener (.certificatePrompt host port) d
  | .experimentalFeature _ => d
  | .graphicsUpdate x y width height =>
    toSink (.graphicsUpdate x y width height) (toSink (.sessionInstanceBound inst) d)
  | .graphicsResize width height bpp => recordSize inst width height bpp d
  | .remoteClipboardChanged data => toListener (.remoteClipboardText data) d
  | .remoteClipboardImageChanged data =>
    match data with
    | none => d
    | some bytes => if bytes.isEmpty then d else toListener (.remoteClipboardImage bytes) d
  | .pointerSet pixels width height hotX hotY =>
    toSink (.pointerSet pixels width height hotX hotY) d
  | .pointerSetNull => toSink .pointerSetNull d
  | .pointerSetDefault => toSink .pointerSetDefault d
  | .rail => d

/-- A callback delivered for `inst`: `uiListenerFor` or `coreListenerFor`. -/
def deliver (inst : Instance) (d : SessionDesktop) : SessionCallback → SessionDesktop
  | .ui cb => uiListenerFor inst d cb
  | .core event nativeDetail now =>
    { d with manager := d.manager.runCallback ⟨inst, event⟩ nativeDetail now }

/-! ## The other writers -/

/-- `sessionUri` clears the layout and takes the colour depth of the options. -/
def openDesktop (env : SessionEnv) (raw : ConnectionProfile) (d : SessionDesktop) :
    SessionDesktop :=
  let profile := normalized env raw
  { d with
    activeBpp := (sessionUri env profile d.manager).options.colorDepth
    lastDispLayoutW := 0
    lastDispLayoutH := 0
    lastDispScale := env.remoteScale profile
    lastDispSentAtMs := 0 }

/-- The profile a step of the manager calls `connect` with, if it does. -/
def connectProfile (s : SessionManager) : SessionStep → Option ConnectionProfile
  | .connect raw _ => some raw
  | .fire i _ =>
    match s.runnables[i]? with
    | some (.reconnect profile _) => if s.mayReconnect then profile.or s.lastProfile else none
    | _ => none
  | _ => none

/-- The guards of `connect` in front of `sessionUri`. -/
def Connects (s : SessionManager) : Prop :=
  ¬ s.released ∧ s.state ≠ .connected ∧ s.state ≠ .authenticating ∧ s.core = none

instance (s : SessionManager) : Decidable (Connects s) := by unfold Connects; infer_instance

/-- What a step of the manager does to the remote desktop. -/
def beforeStep (env : SessionEnv) (a : SessionStep) (d : SessionDesktop) : SessionDesktop :=
  match connectProfile d.manager a with
  | some raw => if Connects d.manager then openDesktop env raw d else d
  | none => d

/-- `setGraphicsSink`. -/
def setGraphicsSink (present : Bool) (d : SessionDesktop) : SessionDesktop :=
  let d₁ : SessionDesktop := { d with sink := present }
  match d.manager.core with
  | none => d₁
  | some session =>
    if session.inst = 0 then d₁
    else
      let d₂ := toSink (.sessionInstanceBound session.inst) d₁
      if 0 < d.resolution.1 ∧ 0 < d.resolution.2 then
        toSink (.graphicsResize d.resolution.1 d.resolution.2 d.activeBpp) d₂
      else d₂

/-- The factors that are known. -/
def remoteDesktopScaleFactors : List ℤ := [100, 125, 150, 175, 200, 250, 300, 400, 500]

/-- `resizeRemote`: `dynamic` is what the options say, `now` the clock and `sent` the answer
of `sendMonitorLayout`. -/
def resizeRemote (dynamic : Bool) (width height scale : ℤ) (now : ℕ) (sent : Bool)
    (d : SessionDesktop) : SessionDesktop :=
  if d.manager.state ≠ .connected ∨ !dynamic ∨ scale ∉ remoteDesktopScaleFactors ∨
      d.manager.core = none then d
  else
    let boundedWidth := max 640 (min width 8192)
    let w := boundedWidth - boundedWidth % 2
    let h := max 480 (min height 8192)
    if (d.resolution = (w, h) ∨ (d.lastDispLayoutW = w ∧ d.lastDispLayoutH = h)) ∧
        d.lastDispScale = scale then d
    else if 0 < d.manager.connectedAtMs ∧ (now : ℤ) - d.manager.connectedAtMs < 900 then d
    else if (now : ℤ) - d.lastDispSentAtMs < 350 then d
    else if sent then
      { d with
        lastDispLayoutW := w
        lastDispLayoutH := h
        lastDispScale := scale
        lastDispSentAtMs := now }
    else d

/-! ## Runs -/

/-- Who acts: the manager takes one of its steps, the native thread of an instance calls its
listener, or the user interface sets the sink or resizes the desktop. -/
inductive Step where
  | manager (a : SessionStep)
  | ui (inst : Instance) (cb : UiCallback)
  | setGraphicsSink (present : Bool)
  | resizeRemote (dynamic : Bool) (width height scale : ℤ) (now : ℕ) (sent : Bool)
  deriving DecidableEq, Repr

/-- One step.  `LibFreeRDP` looks the instance up in the session map and drops a call for one
that is not there. -/
def step (env : SessionEnv) (d : SessionDesktop) : Step → Option SessionDesktop
  | .manager a =>
    (SessionManager.step env d.manager a).map fun m => { beforeStep env a d with manager := m }
  | .ui inst cb =>
    if inst ∈ d.manager.running then
      some (if inst ∈ d.manager.sessionMap then uiListenerFor inst d cb else d)
    else none
  | .setGraphicsSink present => some (d.setGraphicsSink present)
  | .resizeRemote dynamic width height scale now sent =>
    some (d.resizeRemote dynamic width height scale now sent)

/-- The states between two steps. -/
def Reachable (env : SessionEnv) (d : SessionDesktop) : Prop :=
  LabelledRun.Reachable (step env) {} d

/-! ## What a callback of another instance does -/

/-- The state flow, the resolution, the last display layout, the retry counters and the
current session are the same. -/
structure Keeps (d d' : SessionDesktop) : Prop where
  state : d'.manager.state = d.manager.state
  core : d'.manager.core = d.manager.core
  resolution : d'.resolution = d.resolution
  layoutW : d'.lastDispLayoutW = d.lastDispLayoutW
  layoutH : d'.lastDispLayoutH = d.lastDispLayoutH
  autoReconnectAttempts : d'.manager.autoReconnectAttempts = d.manager.autoReconnectAttempts
  compatHandshakeStage : d'.manager.compatHandshakeStage = d.manager.compatHandshakeStage

variable {d d' : SessionDesktop} {inst : Instance}

theorem Keeps.refl (d : SessionDesktop) : Keeps d d := ⟨rfl, rfl, rfl, rfl, rfl, rfl, rfl⟩

/-- Nothing happens but calls outward. -/
def CallsOnly (d d' : SessionDesktop) : Prop := ∃ calls, d' = { d with calls }

theorem CallsOnly.refl (d : SessionDesktop) : CallsOnly d d := ⟨d.calls, rfl⟩

theorem CallsOnly.trans {d'' : SessionDesktop} (h : CallsOnly d d') (h' : CallsOnly d' d'') :
    CallsOnly d d'' := by
  obtain ⟨_, rfl⟩ := h
  obtain ⟨calls, rfl⟩ := h'
  exact ⟨calls, rfl⟩

theorem CallsOnly.keeps (h : CallsOnly d d') : Keeps d d' := by
  obtain ⟨_, rfl⟩ := h
  exact ⟨rfl, rfl, rfl, rfl, rfl, rfl, rfl⟩

theorem CallsOnly.manager (h : CallsOnly d d') : d'.manager = d.manager := by
  obtain ⟨_, rfl⟩ := h
  rfl

theorem callsOnly_toSink (call : OutwardCall) (d : SessionDesktop) :
    CallsOnly d (toSink call d) := by
  unfold toSink
  split
  · exact ⟨_, rfl⟩
  · exact CallsOnly.refl d

theorem callsOnly_toListener (call : OutwardCall) (d : SessionDesktop) :
    CallsOnly d (toListener call d) := by
  unfold toListener
  split
  · exact ⟨_, rfl⟩
  · exact CallsOnly.refl d

/-- The size that a callback records without asking whose it is. -/
def recordedSize : SessionCallback → Option (ℤ × ℤ)
  | .ui (.settingsChanged width height _) => some (width, height)
  | .ui (.graphicsResize width height _) => some (width, height)
  | _ => none

theorem recordSize_fields (inst : Instance) (width height bpp : ℤ) (d : SessionDesktop) :
    (recordSize inst width height bpp d).manager = d.manager ∧
      (recordSize inst width height bpp d).resolution = (width, height) ∧
      (recordSize inst width height bpp d).lastDispLayoutW = width ∧
      (recordSize inst width height bpp d).lastDispLayoutH = height := by
  unfold recordSize
  dsimp only
  set d₁ : SessionDesktop :=
    { d with
      resolution := (width, height)
      lastDispLayoutW := width
      lastDispLayoutH := height
      activeBpp := if 0 < bpp then bpp else d.activeBpp }
  have hbound := callsOnly_toSink (.sessionInstanceBound inst) d₁
  have hcalls : CallsOnly d₁
      (if 0 < width ∧ 0 < height then
        toSink (.graphicsResize width height bpp) (toSink (.sessionInstanceBound inst) d₁)
      else toSink (.sessionInstanceBound inst) d₁) := by
    split
    · exact hbound.trans (callsOnly_toSink _ _)
    · exact hbound
  obtain ⟨calls, hcalls⟩ := hcalls
  rw [hcalls]
  exact ⟨rfl, rfl, rfl, rfl⟩

/-- What a call of the native thread does: it records a size, asks for credentials, or only
calls outward. -/
theorem uiListenerFor_cases (inst : Instance) (d : SessionDesktop) (cb : UiCallback) :
    (∃ width height bpp, recordedSize (.ui cb) = some (width, height) ∧
      uiListenerFor inst d cb = recordSize inst width height bpp d) ∨
    recordedSize (.ui cb) = none ∧
      ((∃ username domain, uiListenerFor inst d cb = onAuthenticate inst username domain d) ∨
        CallsOnly d (uiListenerFor inst d cb)) := by
  cases cb with
  | settingsChanged width height bpp => exact .inl ⟨width, height, bpp, rfl, rfl⟩
  | authenticate username domain => exact .inr ⟨rfl, .inl ⟨username, domain, rfl⟩⟩
  | gatewayAuthenticate username domain => exact .inr ⟨rfl, .inl ⟨username, domain, rfl⟩⟩
  | verifyCertificate host port => exact .inr ⟨rfl, .inr (callsOnly_toListener _ d)⟩
  | verifyChangedCertificate host port => exact .inr ⟨rfl, .inr (callsOnly_toListener _ d)⟩
  | experimentalFeature feature => exact .inr ⟨rfl, .inr (CallsOnly.refl d)⟩
  | graphicsUpdate x y width height =>
    exact .inr ⟨rfl, .inr ((callsOnly_toSink _ d).trans (callsOnly_toSink _ _))⟩
  | graphicsResize width height bpp => exact .inl ⟨width, height, bpp, rfl, rfl⟩
  | remoteClipboardChanged data => exact .inr ⟨rfl, .inr (callsOnly_toListener _ d)⟩
  | remoteClipboardImageChanged data =>
    refine .inr ⟨rfl, .inr ?_⟩
    cases data with
    | none => exact CallsOnly.refl d
    | some bytes =>
      show CallsOnly d (if bytes.isEmpty then d else toListener _ d)
      split
      · exact CallsOnly.refl d
      · exact callsOnly_toListener _ d
  | pointerSet pixels width height hotX hotY => exact .inr ⟨rfl, .inr (callsOnly_toSink _ d)⟩
  | pointerSetNull => exact .inr ⟨rfl, .inr (callsOnly_toSink _ d)⟩
  | pointerSetDefault => exact .inr ⟨rfl, .inr (callsOnly_toSink _ d)⟩
  | rail => exact .inr ⟨rfl, .inr (CallsOnly.refl d)⟩

/-- An event of another instance finds the guard of its handler. -/
theorem runCallback_of_not_current {s : SessionManager} (hinst : ¬ s.isCurrent inst)
    (event : NativeEvent) (nativeDetail : String) (now : ℕ) :
    s.runCallback ⟨inst, event⟩ nativeDetail now = s := by
  cases event with
  | success => exact if_neg hinst
  | failure => exact if_neg hinst
  | disconnected => exact if_neg hinst

/-- **Every callback that records no size is harmless.** -/
theorem keeps_of_no_size (hinst : ¬ d.manager.isCurrent inst) {cb : SessionCallback}
    (hsize : recordedSize cb = none) : Keeps d (deliver inst d cb) := by
  cases cb with
  | core event nativeDetail now =>
    rw [deliver, runCallback_of_not_current hinst]
    exact Keeps.refl d
  | ui cb =>
    rw [deliver]
    rcases uiListenerFor_cases inst d cb with
      ⟨_, _, _, hrecords, -⟩ | ⟨-, ⟨username, domain, hauth⟩ | hcalls⟩
    · rw [hsize] at hrecords
      cases hrecords
    · -- the prompt is guarded
      rw [hauth, onAuthenticate, if_neg fun h => hinst h.2]
      exact Keeps.refl d
    · exact hcalls.keeps

theorem keeps_recordSize_iff (width height bpp : ℤ) :
    Keeps d (recordSize inst width height bpp d) ↔
      d.resolution = (width, height) ∧ d.lastDispLayoutW = width ∧ d.lastDispLayoutH = height := by
  obtain ⟨hmanager, hresolution, hw, hh⟩ := recordSize_fields inst width height bpp d
  constructor
  · intro h
    exact ⟨h.resolution.symm.trans hresolution, h.layoutW.symm.trans hw, h.layoutH.symm.trans hh⟩
  · rintro ⟨h₁, h₂, h₃⟩
    constructor
    · rw [hmanager]
    · rw [hmanager]
    · exact hresolution.trans h₁.symm
    · exact hw.trans h₂.symm
    · exact hh.trans h₃.symm
    · rw [hmanager]
    · rw [hmanager]

/-- The callback writes what is recorded already, if it writes a size at all. -/
def Records (d : SessionDesktop) (cb : SessionCallback) : Prop :=
  ∀ size ∈ recordedSize cb,
    d.resolution = size ∧ d.lastDispLayoutW = size.1 ∧ d.lastDispLayoutH = size.2

/-- A callback of an instance that is not the current one leaves the manager as it was
exactly when it records no size, or the size that is recorded already. -/
theorem keeps_deliver_iff (hinst : ¬ d.manager.isCurrent inst) (cb : SessionCallback) :
    Keeps d (deliver inst d cb) ↔ Records d cb := by
  cases hsize : recordedSize cb with
  | none =>
    constructor
    · intro _ size hmem
      rw [hsize] at hmem
      cases hmem
    · intro _
      exact keeps_of_no_size hinst hsize
  | some size =>
    have hrecord : ∃ bpp, deliver inst d cb = recordSize inst size.1 size.2 bpp d := by
      cases cb with
      | core event nativeDetail now => cases hsize
      | ui cb =>
        rcases uiListenerFor_cases inst d cb with
          ⟨width, height, bpp, hsize', hrecord⟩ | ⟨hnone, -⟩
        · rw [hsize] at hsize'
          cases hsize'
          exact ⟨bpp, hrecord⟩
        · rw [hnone] at hsize
          cases hsize
    obtain ⟨bpp, hrecord⟩ := hrecord
    rw [hrecord, keeps_recordSize_iff]
    constructor
    · intro h size' hmem
      obtain rfl : size = size' := some.inj (hsize.symm.trans hmem)
      exact h
    · intro h
      exact h size hsize

/-! ## Callbacks along a run -/

/-- The callback that a step hands to a listener: a call of the native thread whose instance is
in the session map, or the event in front of the main looper's queue. -/
def callbackOf (d : SessionDesktop) : Step → Option (Instance × SessionCallback)
  | .ui inst cb => if inst ∈ d.manager.sessionMap then some (inst, .ui cb) else none
  | .manager (.authenticate inst) => some (inst, .ui (.authenticate "" ""))
  | .manager (.deliver nativeDetail now) =>
    d.manager.callbacks.head?.map fun cb => (cb.inst, .core cb.event nativeDetail now)
  | _ => none

/-- The step delivers a callback of an instance that is not the current one. -/
def Stale (d : SessionDesktop) (a : Step) (inst : Instance) (cb : SessionCallback) : Prop :=
  callbackOf d a = some (inst, cb) ∧ ¬ d.manager.isCurrent inst

theorem keeps_step_iff {env : SessionEnv} {a : Step} {cb : SessionCallback}
    (hstep : step env d a = some d') (hstale : Stale d a inst cb) :
    Keeps d d' ↔ Records d cb := by
  obtain ⟨hcb, hinst⟩ := hstale
  rw [← keeps_deliver_iff hinst cb]
  cases a with
  | ui inst' cb' =>
    rw [callbackOf] at hcb
    split at hcb
    · next hmap =>
        cases hcb
        obtain ⟨-, hstep⟩ := ite_none_right_eq_some.1 hstep
        rw [if_pos hmap] at hstep
        rw [← some.inj hstep, deliver]
    · cases hcb
  | manager a =>
    obtain ⟨m, hm, rfl⟩ := map_eq_some_iff.1 hstep
    cases a with
    | authenticate inst' =>
      cases hcb
      obtain ⟨-, rfl⟩ := SessionManager.step_authenticate.1 hm
      have hnone : recordedSize (.ui (.authenticate "" "")) = none := rfl
      rw [SessionManager.onAuthenticate, if_neg fun h => hinst h.2]
      exact iff_of_true (Keeps.refl d) (keeps_of_no_size hinst hnone)
    | deliver nativeDetail now =>
      obtain ⟨-, cb', rest, hcallbacks, rfl⟩ := SessionManager.step_deliver.1 hm
      rw [callbackOf, hcallbacks] at hcb
      cases hcb
      have hnone : recordedSize (.core cb'.event nativeDetail now) = none := rfl
      have hrun : runCallback cb' nativeDetail now
          { d.manager with callbacks := rest } = { d.manager with callbacks := rest } :=
        runCallback_of_not_current (s := { d.manager with callbacks := rest }) hinst _ _ _
      rw [hrun]
      apply iff_of_true
      · exact ⟨rfl, rfl, rfl, rfl, rfl, rfl, rfl⟩
      · exact keeps_of_no_size hinst hnone
    | _ => cases hcb
  | setGraphicsSink present => cases hcb
  | resizeRemote dynamic width height scale now sent => cases hcb

/-- **Every stale callback of a run leaves the manager as it was exactly when none of them
records a size that is not recorded already.** -/
theorem stale_keeps_iff (env : SessionEnv) (as : List Step) :
    EveryStep (step env) (fun d a d' => ∀ inst cb, Stale d a inst cb → Keeps d d') {} as ↔
      EveryStep (step env) (fun d a _ => ∀ inst cb, Stale d a inst cb → Records d cb) {} as := by
  apply everyStep_congr
  intro d a d' hstep
  constructor
  · intro h inst cb hstale
    exact (keeps_step_iff hstep hstale).1 (h inst cb hstale)
  · intro h inst cb hstale
    exact (keeps_step_iff hstep hstale).2 (h inst cb hstale)

/-! ## Stale callbacks reach a released manager only -/

/-- A call of the native thread leaves the fields of the manager alone, or is the step
`authenticate`. -/
theorem uiListenerFor_manager (inst : Instance) (d : SessionDesktop) (cb : UiCallback) :
    (uiListenerFor inst d cb).manager = d.manager ∨
      (uiListenerFor inst d cb).manager = d.manager.onAuthenticate inst := by
  rcases uiListenerFor_cases inst d cb with
    ⟨width, height, bpp, -, hrecord⟩ | ⟨-, ⟨username, domain, hauth⟩ | hcalls⟩
  · rw [hrecord]
    exact .inl (recordSize_fields inst width height bpp d).1
  · rw [hauth, onAuthenticate]
    split
    · exact .inr (callsOnly_toListener _ _).manager
    · exact .inl rfl
  · exact .inl hcalls.manager

theorem setGraphicsSink_manager (present : Bool) (d : SessionDesktop) :
    (d.setGraphicsSink present).manager = d.manager := by
  unfold setGraphicsSink
  dsimp only
  split
  · rfl
  · next session _ =>
      have hbound := callsOnly_toSink (.sessionInstanceBound session.inst)
        { d with sink := present }
      split
      · rfl
      · split
        · exact (hbound.trans (callsOnly_toSink _ _)).manager
        · exact hbound.manager

theorem resizeRemote_manager (dynamic : Bool) (width height scale : ℤ) (now : ℕ) (sent : Bool)
    (d : SessionDesktop) :
    (d.resizeRemote dynamic width height scale now sent).manager = d.manager := by
  unfold resizeRemote
  dsimp only
  split_ifs <;> rfl

theorem Reachable.manager {env : SessionEnv} (h : Reachable env d) :
    SessionManager.Reachable env d.manager := by
  have hfresh : SessionManager.Reachable env ({} : SessionDesktop).manager :=
    LabelledRun.Reachable.refl _
  refine LabelledRun.Reachable.induct (P := fun d => SessionManager.Reachable env d.manager) ?_
    hfresh h
  intro d a d' hd hstep
  -- either the manager is untouched, or it takes one of its own steps
  have hmove : d'.manager = d.manager ∨
      ∃ a', SessionManager.step env d.manager a' = some d'.manager := by
    cases a with
    | manager a =>
      obtain ⟨m, hm, rfl⟩ := map_eq_some_iff.1 hstep
      exact .inr ⟨a, hm⟩
    | ui inst cb =>
      obtain ⟨hrunning, hstep⟩ := ite_none_right_eq_some.1 hstep
      obtain rfl := some.inj hstep
      split
      · rcases uiListenerFor_manager inst d cb with hsame | hauth
        · exact .inl hsame
        · exact .inr ⟨.authenticate inst, SessionManager.step_authenticate.2 ⟨hrunning, hauth⟩⟩
      · exact .inl rfl
    | setGraphicsSink present =>
      obtain rfl := some.inj hstep
      exact .inl (setGraphicsSink_manager present d)
    | resizeRemote dynamic width height scale now sent =>
      obtain rfl := some.inj hstep
      exact .inl (resizeRemote_manager dynamic width height scale now sent d)
  obtain hsame | ⟨a', hm⟩ := hmove
  · rw [hsame]
    exact hd
  · refine hd.trans ⟨[a'], ?_⟩
    rw [run_cons_eq_some]
    exact ⟨_, hm, rfl⟩

/-- While the manager is not released, every instance that can still call back is the
current one. -/
theorem current_of_shape {s : SessionManager} {l : Lifecycle} (h : SessionManager.Shape s l)
    (hinst : inst ∈ s.running ∨ ∃ cb ∈ s.callbacks.head?, cb.inst = inst) :
    s.isCurrent inst := by
  cases l with
  | vacant =>
    obtain ⟨-, -, hcallbacks, hrunning, -, -⟩ := h
    rw [hcallbacks, hrunning] at hinst
    simp at hinst
  | probing task =>
    obtain ⟨-, -, hcallbacks, hrunning, -, -, -⟩ := h
    rw [hcallbacks, hrunning] at hinst
    simp at hinst
  | running session n =>
    obtain ⟨hcore, -, hcallbacks, hrunning, -, -, -⟩ := h
    rw [isCurrent_iff_of_core hcore]
    rcases hinst with hinst | ⟨cb, hcb, rfl⟩
    · rw [hrunning] at hinst
      exact (List.mem_singleton.1 hinst).symm
    · have hmem : cb ∈ s.callbacks := List.mem_of_mem_head? hcb
      rw [hcallbacks] at hmem
      rw [(List.mem_replicate.1 hmem).2]
  | ending session n failed =>
    obtain ⟨hcore, -, hcallbacks, hrunning, -, -, -⟩ := h
    rw [isCurrent_iff_of_core hcore]
    rcases hinst with hinst | ⟨cb, hcb, rfl⟩
    · rw [hrunning] at hinst
      cases hinst
    · have hmem : cb ∈ s.callbacks := List.mem_of_mem_head? hcb
      rw [hcallbacks, List.mem_append, List.mem_singleton] at hmem
      rcases hmem with hmem | rfl
      · rw [(List.mem_replicate.1 hmem).2]
      · rfl

/-- **A stale callback only reaches a manager that was released.** -/
theorem released_of_stale {env : SessionEnv} (h : Reachable env d) {a : Step}
    (hstep : step env d a = some d') {cb : SessionCallback} (hstale : Stale d a inst cb) :
    d.manager.released := by
  obtain ⟨hcb, hinst⟩ := hstale
  by_contra hr
  obtain ⟨-, l, hshape⟩ := h.manager.inv.shape (Bool.eq_false_iff.2 hr)
  apply hinst
  apply current_of_shape hshape
  cases a with
  | ui inst' cb' =>
    rw [callbackOf] at hcb
    obtain ⟨-, hcb⟩ := ite_none_right_eq_some.1 hcb
    cases hcb
    exact .inl (ite_none_right_eq_some.1 hstep).1
  | manager a =>
    obtain ⟨m, hm, rfl⟩ := map_eq_some_iff.1 hstep
    cases a with
    | authenticate inst' =>
      cases hcb
      exact .inl (SessionManager.step_authenticate.1 hm).1
    | deliver nativeDetail now =>
      obtain ⟨cb', hhead, hcb⟩ := map_eq_some_iff.1 hcb
      cases hcb
      exact .inr ⟨cb', hhead, rfl⟩
    | _ => cases hcb
  | setGraphicsSink present => cases hcb
  | resizeRemote dynamic width height scale now sent => cases hcb

/-- A manager that is released while the native thread of its session runs. -/
def releasedRun : List Step :=
  [.manager (.connect deskProfile (some 1)), .manager (.work true none),
    .manager .release]

theorem released_of_stale_size : ∃ d, run (step plainEnv) {} releasedRun = some d ∧
    d.manager.released :=
  ⟨_, rfl, released_of_stale ⟨releasedRun, rfl⟩ (a := .ui 1 (.settingsChanged 1280 720 32)) rfl
    ⟨rfl, by decide⟩⟩

/-- The size of a session that was given up replaces the one that is recorded. -/
theorem stale_size_recorded :
    ¬ ∀ env d, Reachable env d → ∀ a d', step env d a = some d' →
      ∀ inst cb, Stale d a inst cb → Keeps d d' := by
  intro h
  have hrun : (run (step plainEnv) {} releasedRun).any fun d =>
      d.manager.running = [1] ∧ d.manager.sessionMap = [1] ∧ d.manager.core = none ∧
        d.resolution = (0, 0) := by
    rfl
  obtain ⟨d, hd, hfacts⟩ := (any_eq_true _ _).1 hrun
  obtain ⟨hrunning, hmap, hcore, hresolution⟩ := of_decide_eq_true hfacts
  have hstep : step plainEnv d (.ui 1 (.settingsChanged 1280 720 32)) =
      some (recordSize 1 1280 720 32 d) := by
    rw [step, hrunning, hmap]
    rfl
  have hstale : Stale d (.ui 1 (.settingsChanged 1280 720 32)) 1
      (.ui (.settingsChanged 1280 720 32)) := by
    constructor
    · rw [callbackOf, hmap]
      rfl
    · exact not_isCurrent_of_core_none hcore 1
  have hkeeps := h _ d ⟨releasedRun, hd⟩ _ _ hstep 1 _ hstale
  rw [keeps_recordSize_iff, hresolution] at hkeeps
  exact absurd hkeeps.1 (by decide)

end SessionDesktop
