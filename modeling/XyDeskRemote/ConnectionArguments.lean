/-
# Which connections the core understands

The arguments that a connection URI turns into, read against the table of the core's
options.  The core reads them all, and has the server, the user, the password and the domain
of the profile afterwards, exactly when the profile and the options are `Expressible`: the
domain has to be absent, since it is sent under a keyword that no option has, and a
password, a program and a directory must not be taken for switches.
-/
import XyDeskRemote.RdpUri

open List Or

namespace RdpUri

open WorkerText (lit)
open KotlinText CommandLine

/-! ## The table for a connection -/

/-- The options that a keyword leads to, in any build. -/
def rowsFor (key : String) : List CmdArg :=
  cmdArgs.filter fun row => row.arg.matchesKeyword (lit key)

/-- Every build has an option for the keyword, and it admits an argument with a value, or
without one; only `gfx` is there in two forms. -/
def Covered (key : String) (hasValue : Bool) : Prop :=
  (∀ on : Bool, ∃ row ∈ rowsFor key, ∀ c ∈ row.conditions, c = (.gfxH264, on)) ∧
    ∀ row ∈ rowsFor key, row.arg.name = key ∧
      row.arg.admits (if hasValue then some [] else none) = true

instance (key : String) (hasValue : Bool) : Decidable (Covered key hasValue) :=
  inferInstanceAs (Decidable (_ ∧ _))

/-- The parameters that stand for flags and switches. -/
def switchKeys : List String :=
  ["clipboard", "multitransport", "video", "dynamic-resolution", "async-update",
    "async-channels", "compression", "fonts", "wallpaper", "window-drag", "menu-anims",
    "themes", "aero", "admin", "restricted-admin"]

/-- The keywords of a connection. -/
def keywords : List String := ["gdi", "client-hostname", "v", "kbd"] ++ paramKeys

/-- The options that more than their place in the table matters of. -/
def knownRows : List (String × List CmdArg) :=
  [("domain", []), ("v", [always "v" [.valueRequired]]), ("u", [always "u" [.valueRequired]]),
    ("p", [always "p" [.valueOptional]]), ("d", [always "d" [.valueRequired]]),
    ("shell", [always "shell" [.valueRequired]]),
    ("shell-dir", [always "shell-dir" [.valueRequired]]),
    ("video", [always "video" [.valueFlag]]),
    ("multitransport", [always "multitransport" [.valueBool]])]

/-- **The table against the keywords of a connection**: it has them all but the domain. -/
theorem keywords_covered :
    (∀ key ∈ keywords, key ≠ "domain" → Covered key (key ∉ switchKeys)) ∧
      ∀ known ∈ knownRows, rowsFor known.1 = known.2 := by
  decide +kernel

/-- The options of a keyword that are known in full. -/
theorem rowsFor_known (key : String) (rows : List CmdArg) (h : (key, rows) ∈ knownRows) :
    rowsFor key = rows :=
  keywords_covered.2 (key, rows) h

section Table

variable {build : BuildOption → Bool} {key : String} {hasValue : Bool} {a : Argument}
  {cur : CommandLineArgument} {value value' : Option CodeUnits}

theorem mem_rowsFor (hcur : cur ∈ globalCmdArgs build)
    (hmatch : cur.matchesKeyword (lit key) = true) : ∃ row ∈ rowsFor key, row.arg = cur := by
  obtain ⟨row, hrow, -, rfl⟩ := mem_globalCmdArgs.1 hcur
  exact ⟨row, mem_filter.2 ⟨hrow, hmatch⟩, rfl⟩

/-- Whether a value is admitted does not depend on the value. -/
theorem admits_congr (h : value.isSome = value'.isSome) : cur.admits value = cur.admits value' := by
  rw [CommandLineArgument.admits, h]
  rfl

theorem admittedBy_of_covered (hkey : a.keyword = lit key) (h : Covered key a.value.isSome) :
    a.AdmittedBy (globalCmdArgs build) := by
  constructor
  · obtain ⟨row, hrow, hconditions⟩ := h.1 (build .gfxH264)
    obtain ⟨hmem, hmatch⟩ := mem_filter.1 hrow
    refine ⟨row.arg, mem_globalCmdArgs.2 ⟨row, hmem, fun c hc => ?_, rfl⟩, ?_⟩
    · rw [hconditions c hc]
    · rw [hkey]
      exact hmatch
  · intro cur hcur hmatch
    rw [hkey] at hmatch
    obtain ⟨row, hrow, rfl⟩ := mem_rowsFor hcur hmatch
    rw [← (h.2 row hrow).2]
    apply admits_congr
    cases a.value <;> rfl

theorem find_of_rowsFor {flags : List Flag} (h : rowsFor key = [always key flags]) :
    (globalCmdArgs build).find? (·.matchesKeyword (lit key)) =
      some { name := key, flags := flags } := by
  have hmem : always key flags ∈ rowsFor key := h ▸ mem_cons_self
  obtain ⟨hrow, hmatch⟩ := mem_filter.1 hmem
  refine find_globalCmdArgs ⟨_, hrow, rfl, rfl⟩ hmatch fun row hrow' hmatch' => ?_
  have hmem' : row ∈ rowsFor key := mem_filter.2 ⟨hrow', hmatch'⟩
  rw [h] at hmem'
  rw [mem_singleton.1 hmem']
  rfl

theorem admits_of_rowsFor {flags : List Flag} (h : rowsFor key = [always key flags])
    (hkey : a.keyword = lit key) (hadmitted : a.AdmittedBy (globalCmdArgs build)) :
    ({ name := key, flags := flags } : CommandLineArgument).admits a.value = true := by
  have hfind := @find_of_rowsFor build _ _ h
  refine hadmitted.admits _ (mem_of_find?_eq_some hfind) ?_
  rw [hkey]
  exact find?_some (p := fun cur : CommandLineArgument => cur.matchesKeyword (lit key)) hfind

end Table

/-! ## The parameters that are switches -/

/-- What can be told to the core: no domain, a password that is not taken for a switch or
left out, and for a program and its directory values that are not taken for switches. -/
structure Expressible (norm : ConnectionProfile) (options : RdpOptions) : Prop where
  domain : norm.domain = none
  password : ∀ password ∈ norm.password,
    password = [] ∨ isBlank password = false ∧ password ≠ lit "+" ∧ password ≠ lit "-"
  program : options.pcConnectMode = false → ∀ program ∈ trimmed options.remoteProgram,
    program ≠ lit "+" ∧ program ≠ lit "-"
  directory : options.pcConnectMode = false → ∀ directory ∈ trimmed options.remoteWorkDir,
    directory ≠ lit "+" ∧ directory ≠ lit "-"

section Switches

variable {norm : ConnectionProfile} {options : RdpOptions} {value v : CodeUnits}
  {condition : Bool} {n : Int} {s : Option CodeUnits} {key : String}

theorem takeIf_eq_some : takeIf condition value = some v ↔ condition = true ∧ value = v := by
  cases condition <;> simp [takeIf]

theorem isSwitch_onOff (on : Bool) : isSwitch (onOff on) = true := by
  cases on <;> decide

/-- A text of two characters or more is no switch. -/
theorem isSwitch_of_length (h : 2 ≤ v.length) : isSwitch v = false := by
  rw [Bool.eq_false_iff, Ne, isSwitch_iff]
  rintro (rfl | rfl | rfl)
  · exact absurd h (by decide)
  · exact absurd h (by decide)
  · exact absurd h (by decide)

theorem isSwitch_decimalInt (h : 0 ≤ n) : isSwitch (decimalInt n) = false := by
  have hdigit : ∀ u ∈ decimalInt n, 0x30 ≤ u := fun u hu => by
    rw [decimalInt_of_nonneg h] at hu
    exact (mem_decimal hu).1
  have hne : decimalInt n ≠ [] := by
    rw [decimalInt_of_nonneg h, decimal, Ne, map_eq_nil_iff]
    exact Numeral.digits_ne_nil 10 n.toNat
  rw [Bool.eq_false_iff, Ne, isSwitch_iff]
  rintro (hnil | hminus | hplus)
  · exact hne hnil
  · exact absurd (hdigit 0x2D (by rw [hminus]; decide)) (by decide)
  · exact absurd (hdigit 0x2B (by rw [hplus]; decide)) (by decide)

/-- A text that is there and neither of the signs is no switch. -/
theorem isSwitch_eq_false (hne : v ≠ []) (hsigns : v ≠ lit "+" ∧ v ≠ lit "-") :
    isSwitch v = false := by
  simp [isSwitch, hne, hsigns.1, hsigns.2]

theorem ne_nil_of_trimmed (h : v ∈ trimmed s) : v ≠ [] := by
  obtain ⟨-, hne⟩ := Option.filter_eq_some_iff.1 h
  exact of_decide_eq_true hne

/-- A parameter is without a value when its key is one of the flags and switches. -/
def Listed (e : String × Option CodeUnits) : Prop :=
  ∀ v, e.2 = some v → isSwitch v = decide (e.1 ∈ switchKeys)

theorem listed_some (h : isSwitch value = decide (key ∈ switchKeys)) :
    Listed (key, some value) := by
  intro v hv
  rw [← Option.some.inj hv]
  exact h

theorem listed_takeIf (h : condition = true → isSwitch value = decide (key ∈ switchKeys)) :
    Listed (key, takeIf condition value) := by
  intro v hv
  obtain ⟨hcondition, rfl⟩ := takeIf_eq_some.1 hv
  exact h hcondition

/-- A parameter that always has a value. -/
theorem listed_of_value (hkey : key ∉ switchKeys) (h : ∀ v ∈ s, isSwitch v = false) :
    Listed (key, s) := by
  intro v hv
  rw [h v hv]
  exact (decide_eq_false hkey).symm

theorem isSwitch_gatewayArg (g : XyGateway) : isSwitch (gatewayArg g) = false := by
  have hstart : (lit "g:").length = 2 := by decide
  apply isSwitch_of_length
  rw [gatewayArg]
  simp only [length_append]
  omega

theorem isSwitch_of_needsQueryParamUser (h : needsQueryParamUser (some v) = true) :
    isSwitch v = false := by
  rw [Bool.eq_false_iff, Ne, isSwitch_iff]
  rintro (rfl | rfl | rfl)
  · exact absurd h (by decide)
  · exact absurd h (by decide)
  · exact absurd h (by decide)

theorem listed_credentialEntries (h : Expressible norm options) :
    ∀ e ∈ credentialEntries norm, Listed e := by
  intro e he
  simp only [credentialEntries, mem_cons, not_mem_nil, or_false] at he
  rcases he with rfl | rfl | rfl
  · refine listed_of_value (by decide) fun v hv => ?_
    obtain ⟨-, hparam⟩ := Option.filter_eq_some_iff.1 hv
    exact isSwitch_of_needsQueryParamUser hparam
  · refine listed_of_value (by decide) fun v hv => ?_
    obtain ⟨hpassword, hblank⟩ := Option.filter_eq_some_iff.1 hv
    rcases h.password v hpassword with rfl | ⟨-, hsigns⟩
    · exact absurd hblank (by decide)
    · have hne : v ≠ [] := by
        rintro rfl
        exact absurd hblank (by decide)
      exact isSwitch_eq_false hne hsigns
  · refine listed_of_value (by decide) fun v hv => ?_
    obtain ⟨hdomain, -⟩ := Option.filter_eq_some_iff.1 hv
    rw [h.domain] at hdomain
    cases hdomain

theorem listed_optionEntries (h : Expressible norm options) :
    ∀ e ∈ optionEntries options, Listed e := by
  intro e he
  simp only [optionEntries, mem_cons, not_mem_nil, or_false] at he
  rcases he with rfl | rfl | rfl | rfl | rfl | rfl | rfl | rfl | rfl | rfl | rfl | rfl | rfl |
    rfl | rfl | rfl | rfl | rfl | rfl | rfl | rfl | rfl | rfl | rfl | rfl | rfl | rfl | rfl |
    rfl | rfl | rfl
  -- the sound, the devices and the channels
  · refine listed_some ((isSwitch_decimalInt ?_).trans (by decide))
    cases options.audioMode <;> decide
  · exact listed_takeIf fun _ => by decide
  · exact listed_takeIf fun _ => by decide
  · exact listed_some ((isSwitch_onOff _).trans (by decide))
  · exact listed_takeIf fun _ => by decide
  · exact listed_takeIf fun _ => by decide
  · exact listed_takeIf fun _ => by decide
  · split
    · exact listed_some (by decide)
    · exact listed_takeIf fun _ => by decide
  -- the graphics
  · refine listed_takeIf fun _ => ?_
    split <;> split <;> decide
  · exact listed_takeIf fun _ => by decide
  · refine listed_takeIf fun hrange => (isSwitch_decimalInt ?_).trans (by decide)
    rw [Bool.and_eq_true, decide_eq_true_iff, decide_eq_true_iff] at hrange
    omega
  · refine listed_takeIf fun hrange => (isSwitch_decimalInt ?_).trans (by decide)
    rw [Bool.and_eq_true, decide_eq_true_iff, decide_eq_true_iff] at hrange
    omega
  · exact listed_takeIf fun _ => by decide
  · refine listed_takeIf fun _ => (isSwitch_decimalInt ?_).trans (by decide)
    omega
  · exact listed_takeIf fun _ => by decide
  · exact listed_takeIf fun _ => by decide
  · exact listed_takeIf fun _ => by decide
  · exact listed_takeIf fun _ => by decide
  · exact listed_takeIf fun _ => by decide
  · exact listed_takeIf fun _ => (isSwitch_onOff _).trans (by decide)
  · exact listed_takeIf fun _ => (isSwitch_onOff _).trans (by decide)
  · exact listed_takeIf fun _ => (isSwitch_onOff _).trans (by decide)
  · exact listed_takeIf fun _ => (isSwitch_onOff _).trans (by decide)
  · exact listed_takeIf fun _ => by decide
  -- the security and the session
  · refine listed_of_value (by decide) fun v hv => ?_
    cases hsec : options.securityProtocol <;> rw [hsec] at hv <;> cases hv <;> decide
  · refine listed_takeIf fun _ => (isSwitch_of_length ?_).trans (by decide)
    have hstart : (lit "seclevel:").length = 9 := by decide
    rw [length_append]
    omega
  · exact listed_takeIf fun _ => by decide
  · exact listed_takeIf fun _ => by decide
  · refine listed_of_value (by decide) fun v hv => ?_
    obtain ⟨hprogram, hkeep⟩ := Option.filter_eq_some_iff.1 hv
    exact isSwitch_eq_false (ne_nil_of_trimmed hprogram)
      (h.program (by simpa using hkeep) v hprogram)
  · refine listed_of_value (by decide) fun v hv => ?_
    obtain ⟨hdirectory, hkeep⟩ := Option.filter_eq_some_iff.1 hv
    exact isSwitch_eq_false (ne_nil_of_trimmed hdirectory)
      (h.directory (by simpa using hkeep) v hdirectory)
  · refine listed_of_value (by decide) fun v hv => ?_
    obtain ⟨hgateway, -⟩ := Option.filter_eq_some_iff.1 hv
    obtain ⟨g, -, rfl⟩ := Option.map_eq_some_iff.1 hgateway
    exact isSwitch_gatewayArg g

/-- **The parameters without a value are the ones that stand for flags.** -/
theorem isSwitch_entry (h : Expressible norm options) {p : String × CodeUnits}
    (hp : (p.1, some p.2) ∈ credentialEntries norm ++ optionEntries options) :
    isSwitch p.2 = decide (p.1 ∈ switchKeys) := by
  rcases mem_append.1 hp with hp | hp
  · exact listed_credentialEntries h _ hp _ rfl
  · exact listed_optionEntries h _ hp _ rfl

end Switches

/-! ## Every argument is admitted -/

/-- The options that `freerdp_client_command_line_post_filter` looks at. -/
def filteredNames : List String :=
  ["a", "kerberos", "vc", "dvc", "drive", "serial", "parallel", "smartcard", "printer", "usb",
    "multitouch", "gestures", "echo", "ssh-agent", "disp", "geometry", "video", "sound",
    "microphone", "multimedia", "heartbeat", "multitransport"]

/-- The filter has nothing against the channels and the devices of the client; `path` is the
directory that is redirected. -/
structure AcceptsChannels (postFilter : String → Option Value → Bool) (path : CodeUnits) :
    Prop where
  other : ∀ name value, name ∉ filteredNames → postFilter name value = true
  sound : postFilter "sound" (some (.text (lit "sys:opensles,format:1,quality:high"))) = true
  microphone : postFilter "microphone" (some (.text (lit "sys:opensles,format:1"))) = true
  drive : postFilter "drive" (some (.text (lit "XyDesk" ++ 0x2C :: path))) = true
  dvc : postFilter "dvc" (some (.text (lit "rdpecam"))) = true
  multitransport : ∀ enable, postFilter "multitransport" (some (.bool enable)) = true
  video : postFilter "video" (some .one) = true

/-- The keywords that are not parameters. -/
def fixedKeywords : List String := ["gdi", "client-hostname", "v", "u", "kbd"]

section Admitted

variable {build : BuildOption → Bool} {postFilter : String → Option Value → Bool}
  {clientName path : CodeUnits} {norm : ConnectionProfile} {options : RdpOptions}
  {a : Argument} {p : String × CodeUnits} {key : String} {value : Option CodeUnits}

theorem mem_arguments (h : a ∈ arguments clientName path norm options) :
    (∃ key ∈ fixedKeywords, ∃ value, a = ⟨0x2F, lit key, some value⟩) ∨
      ∃ p ∈ queryOf norm options, a = paramParts path p := by
  simp only [arguments, mem_append, mem_singleton, mem_map, Option.mem_toList]
    at h
  rcases h with ((((rfl | hclient) | rfl) | ⟨user, -, rfl⟩) | ⟨p, hp, rfl⟩) | rfl
  · exact inl ⟨"gdi", by decide, _, rfl⟩
  · split at hclient
    · exact absurd hclient not_mem_nil
    · exact inl ⟨"client-hostname", by decide, _, mem_singleton.1 hclient⟩
  · exact inl ⟨"v", by decide, _, rfl⟩
  · exact inl ⟨"u", by decide, _, rfl⟩
  · exact inr ⟨p, hp, rfl⟩
  · exact inl ⟨"kbd", by decide, _, rfl⟩

theorem key_mem_paramKeys (hp : p ∈ queryOf norm options) : p.1 ∈ paramKeys :=
  params_keys.subset (mem_map_of_mem hp)

theorem keyword_paramParts : (paramParts path p).keyword = lit p.1 := by
  rw [paramParts]
  split <;> rfl

theorem value_paramParts : (paramParts path p).value.isSome = !isSwitch p.2 := by
  rw [paramParts]
  split
  · rename_i hswitch
    rw [hswitch]
    rfl
  · rename_i hswitch
    rw [Bool.eq_false_iff.2 hswitch]
    rfl

/-- The parts of an argument can be told from its text. -/
theorem wellFormed_arguments (h : a ∈ arguments clientName path norm options) :
    a.WellFormed := by
  have hkeywords : ∀ key ∈ keywords, lit key ≠ [] ∧ 0x3A ∉ lit key := by decide +kernel
  rcases mem_arguments h with ⟨key, hkey, value, rfl⟩ | ⟨p, hp, rfl⟩
  · have hfixed : ∀ key ∈ fixedKeywords, key ∈ keywords := by decide
    obtain ⟨hne, hcolon⟩ := hkeywords key (hfixed key hkey)
    exact ⟨rfl, hne, hcolon⟩
  · obtain ⟨hne, hcolon⟩ := hkeywords p.1 (mem_append_right _ (key_mem_paramKeys hp))
    refine ⟨?_, by rwa [keyword_paramParts], by rwa [keyword_paramParts]⟩
    rw [paramParts]
    split
    · rename_i hswitch
      rcases isSwitch_iff.1 hswitch with heq | heq | heq <;> rw [heq] <;> rfl
    · rfl

/-- What is sent under a key is what its entry says. -/
theorem value_of_mem (hp : p ∈ queryOf norm options) (hkey : p.1 = key)
    (hmem : (key, value) ∈ credentialEntries norm ++
      optionEntries options) : value = some p.2 := by
  have hfilter : p ∈ (queryOf norm options).filter fun p => p.1 = key :=
    mem_filter.2 ⟨hp, decide_eq_true hkey⟩
  rw [filter_queryOf hmem] at hfilter
  obtain ⟨v, hv, rfl⟩ := mem_map.1 hfilter
  exact Option.mem_toList.1 hv

/-- The domain is not sent when there is none. -/
theorem key_ne_domain (h : Expressible norm options)
    (hp : p ∈ queryOf norm options) : p.1 ≠ "domain" := by
  intro hkey
  have hentry : ("domain", notBlank norm.domain) ∈
      credentialEntries norm := by simp [credentialEntries]
  have hvalue := value_of_mem hp hkey (mem_append_left _ hentry)
  rw [h.domain] at hvalue
  cases hvalue

/-- **The table admits the arguments of a connection.** -/
theorem arguments_admitted (h : Expressible norm options)
    (ha : a ∈ arguments clientName path norm options) :
    a.AdmittedBy (globalCmdArgs build) := by
  rcases mem_arguments ha with ⟨key, hkey, value, rfl⟩ | ⟨p, hp, rfl⟩
  · have hfixed : ∀ key ∈ fixedKeywords, key ∈ keywords ∧ key ≠ "domain" ∧ key ∉ switchKeys := by
      decide
    obtain ⟨hmem, hdomain, hvalue⟩ := hfixed key hkey
    have hcovered := keywords_covered.1 key hmem hdomain
    rw [decide_eq_true hvalue] at hcovered
    exact admittedBy_of_covered rfl hcovered
  · have hmem : p.1 ∈ keywords := mem_append_right _ (key_mem_paramKeys hp)
    have hcovered := keywords_covered.1 p.1 hmem (key_ne_domain h hp)
    refine admittedBy_of_covered keyword_paramParts ?_
    rw [value_paramParts, isSwitch_entry h (mem_params.1 hp), ← decide_not]
    exact hcovered

/-- The options that a covered keyword leads to have its name. -/
theorem name_of_matches {cur : CommandLineArgument} (hkey : key ∈ keywords)
    (hdomain : key ≠ "domain") (hcur : cur ∈ globalCmdArgs build)
    (hmatch : cur.matchesKeyword (lit key) = true) : cur.name = key := by
  obtain ⟨row, hrow, rfl⟩ := mem_rowsFor hcur hmatch
  exact ((keywords_covered.1 key hkey hdomain).2 row hrow).1

theorem eq_of_matches {cur : CommandLineArgument} {flags : List Flag}
    (h : rowsFor key = [always key flags]) (hcur : cur ∈ globalCmdArgs build)
    (hmatch : cur.matchesKeyword (lit key) = true) : cur = { name := key, flags := flags } := by
  obtain ⟨row, hrow, rfl⟩ := mem_rowsFor hcur hmatch
  rw [h] at hrow
  rw [mem_singleton.1 hrow]
  rfl

/-- A parameter that is sent under a condition has the one value. -/
theorem eq_of_takeIf (c : Bool) (v : CodeUnits) (hp : p ∈ queryOf norm options)
    (hkey : p.1 = key) (hmem : (key, takeIf c v) ∈ optionEntries options) : p = (key, v) := by
  obtain ⟨-, hv⟩ := takeIf_eq_some.1 (value_of_mem hp hkey (mem_append_right _ hmem))
  rw [hv, ← hkey]

/-- The parameters that the filter looks at. -/
theorem filtered_cases (hp : p ∈ queryOf norm options) (h : p.1 ∈ filteredNames) :
    p = ("sound", lit "sys:opensles,format:1,quality:high") ∨
      p = ("microphone", lit "sys:opensles,format:1") ∨ p = ("drive", lit "XyDesk") ∨
      p = ("dvc", lit "rdpecam") ∨ p = ("multitransport", lit "+") ∨ p = ("video", []) := by
  have hfiltered : ∀ key ∈ paramKeys, key ∈ filteredNames →
      key = "sound" ∨ key = "microphone" ∨ key = "drive" ∨ key = "dvc" ∨
        key = "multitransport" ∨ key = "video" := by decide
  rcases hfiltered p.1 (key_mem_paramKeys hp) h with hkey | hkey | hkey | hkey | hkey | hkey
  · exact inl (eq_of_takeIf (options.audioMode = .device) _ hp hkey
      (by simp [optionEntries]))
  · exact inr (inl (eq_of_takeIf (options.microphone && !options.pcConnectMode) _ hp hkey
      (by simp [optionEntries])))
  · exact inr (inr (inl (eq_of_takeIf (options.localDrive && !options.pcConnectMode) _
      hp hkey (by simp [optionEntries]))))
  · exact inr (inr (inr (inl (eq_of_takeIf (options.camera && !options.pcConnectMode)
      _ hp hkey (by simp [optionEntries])))))
  · exact inr (inr (inr (inr (inl (eq_of_takeIf options.udpTransport _ hp hkey
      (by simp [optionEntries]))))))
  · exact inr (inr (inr (inr (inr (eq_of_takeIf
      (options.h264 && options.videoRemoting) _ hp hkey (by simp [optionEntries]))))))

theorem value_paramParts_text {v : CodeUnits} (hkey : key ≠ "drive") (h : isSwitch v = false) :
    (paramParts path (key, v)).value = some v := by
  simp [paramParts, h, hkey]

theorem value_paramParts_drive :
    (paramParts path ("drive", lit "XyDesk")).value = some (lit "XyDesk" ++ 0x2C :: path) := by
  have hswitch : isSwitch (lit "XyDesk") = false := by decide
  simp [paramParts, hswitch]

/-- The parameters that the filter looks at are the ones it accepts. -/
theorem passes_param (hfilter : AcceptsChannels postFilter path)
    (h : Expressible norm options)
    (hp : p ∈ queryOf norm options) :
    (paramParts path p).Passes postFilter (globalCmdArgs build) := by
  intro cur hcur hmatch old
  rw [keyword_paramParts] at hmatch
  have hname := name_of_matches (mem_append_right _ (key_mem_paramKeys hp))
    (key_ne_domain h hp) hcur hmatch
  by_cases hother : p.1 ∈ filteredNames
  · rcases filtered_cases hp hother with rfl | rfl | rfl | rfl | rfl | rfl
    · rw [hname, value_paramParts_text (by decide) (by decide)]
      exact hfilter.sound
    · rw [hname, value_paramParts_text (by decide) (by decide)]
      exact hfilter.microphone
    · rw [hname, value_paramParts_drive]
      exact hfilter.drive
    · rw [hname, value_paramParts_text (by decide) (by decide)]
      exact hfilter.dvc
    · have hrows := rowsFor_known "multitransport" [always "multitransport" [.valueBool]]
        (by decide)
      rw [eq_of_matches hrows hcur hmatch]
      exact hfilter.multitransport _
    · have hrows := rowsFor_known "video" [always "video" [.valueFlag]] (by decide)
      rw [eq_of_matches hrows hcur hmatch]
      exact hfilter.video
  · rw [hname]
    exact hfilter.other _ _ hother

/-- **The filter lets the arguments of a connection pass.** -/
theorem arguments_pass (hfilter : AcceptsChannels postFilter path)
    (h : Expressible norm options)
    (ha : a ∈ arguments clientName path norm options) :
    a.Passes postFilter (globalCmdArgs build) := by
  rcases mem_arguments ha with ⟨key, hkey, value, rfl⟩ | ⟨p, hp, rfl⟩
  · intro cur hcur hmatch old
    have hfixed : ∀ key ∈ fixedKeywords, key ∈ keywords ∧ key ≠ "domain" ∧
        key ∉ filteredNames := by decide
    obtain ⟨hmem, hdomain, hother⟩ := hfixed key hkey
    rw [name_of_matches hmem hdomain hcur hmatch]
    exact hfilter.other _ _ hother
  · exact passes_param hfilter h hp

end Admitted

/-! ## What the options are set to -/

/-- The options that carry the profile. -/
def profileKeys : List String := ["v", "u", "p", "d"]

section Carried

variable {build : BuildOption → Bool} {clientName path : CodeUnits}
  {norm : ConnectionProfile} {options : RdpOptions} {key other : String}
  {args : List Argument} {flags : List Flag}

theorem lit_profileKeys :
    ∀ key ∈ profileKeys, ∀ other ∈ keywords, lit key = lit other ↔ key = other := by
  decide +kernel

/-- Arguments that have one keyword are all for an option, or none is. -/
theorem filter_keyword (hkey : key ∈ profileKeys) (other : String) (hother : other ∈ keywords)
    (h : ∀ a ∈ args, a.keyword = lit other) :
    (args.filter fun a => lit key = a.keyword) = if key = other then args else [] := by
  have hlit := lit_profileKeys key hkey other hother
  split
  · rename_i heq
    exact filter_eq_self.2 fun a ha => decide_eq_true ((hlit.2 heq).trans (h a ha).symm)
  · rename_i hne
    refine filter_eq_nil_iff.2 fun a ha heq => hne (hlit.1 ?_)
    rw [of_decide_eq_true heq, h a ha]

theorem filter_arguments (hkey : key ∈ profileKeys) :
    ((arguments clientName path norm options).filter fun a => lit key = a.keyword) =
      (if key = "v" then
        [⟨0x2F, lit "v", some (serverText norm)⟩] else []) ++
      (if key = "u" then (authorityUser norm).toList.map
        (fun user => ⟨0x2F, lit "u", some user⟩) else []) ++
      ((queryOf norm options).filter fun p => p.1 = key).map (paramParts path) := by
  have hother : ∀ other ∈ ["gdi", "client-hostname", "kbd"], ¬ key = other := by
    have hnot : ∀ other ∈ ["gdi", "client-hostname", "kbd"], other ∉ profileKeys := by decide
    intro other hother heq
    exact hnot other hother (heq ▸ hkey)
  have hclient : ∀ a ∈ if clientName = [] then [] else
      [(⟨0x2F, lit "client-hostname", some clientName⟩ : Argument)],
      a.keyword = lit "client-hostname" := by
    intro a ha
    split at ha
    · exact absurd ha not_mem_nil
    · rw [mem_singleton.1 ha]
  have huser : ∀ a ∈ (authorityUser norm).toList.map
      (fun user => (⟨0x2F, lit "u", some user⟩ : Argument)), a.keyword = lit "u" := by
    intro a ha
    obtain ⟨user, -, rfl⟩ := mem_map.1 ha
    rfl
  have hparams : ((queryOf norm options).map (paramParts path)).filter
      (fun a => lit key = a.keyword) =
      ((queryOf norm options).filter fun p => p.1 = key).map (paramParts path) := by
    rw [filter_map]
    congr 1
    refine filter_congr fun p hp => ?_
    have hlit := lit_profileKeys key hkey p.1 (mem_append_right _ (key_mem_paramKeys hp))
    rw [Function.comp_apply, keyword_paramParts]
    simp only [hlit, eq_comm]
  rw [arguments]
  simp only [filter_append]
  rw [hparams, filter_keyword hkey "gdi" (by decide) (fun a ha => by rw [mem_singleton.1 ha]),
    filter_keyword hkey "client-hostname" (by decide) hclient,
    filter_keyword hkey "v" (by decide) (fun a ha => by rw [mem_singleton.1 ha]),
    filter_keyword hkey "u" (by decide) huser,
    filter_keyword hkey "kbd" (by decide) (fun a ha => by rw [mem_singleton.1 ha]),
    if_neg (hother "gdi" (by decide)), if_neg (hother "client-hostname" (by decide)),
    if_neg (hother "kbd" (by decide)), nil_append, nil_append, append_nil]

/-- What an option has after a run. -/
theorem findValue_key (hrows : rowsFor key = [always key flags]) :
    findValue ((globalCmdArgs build).map (applyAll args)) key =
      ((args.filter fun a => lit key = a.keyword).foldl
        (fun (cur : CommandLineArgument) (a : Argument) => cur.set a.sigil a.value)
        { name := key, flags := flags }).value := by
  have hmatches : (fun a : Argument => ({ name := key, flags := flags } :
      CommandLineArgument).matchesKeyword a.keyword) = fun a => decide (lit key = a.keyword) := by
    funext a
    rw [CommandLineArgument.matchesKeyword]
    exact Bool.or_false _
  rw [findValue_run (find_of_rowsFor hrows), hmatches]

theorem findValue_server : findValue ((globalCmdArgs build).map
    (applyAll (arguments clientName path norm options))) "v" =
      some (.text (serverText norm)) := by
  have hnone : (queryOf norm options).filter (fun p => p.1 = "v") = [] := by
    refine filter_eq_nil_iff.2 fun p hp hkey => ?_
    have hmem := key_mem_paramKeys hp
    rw [of_decide_eq_true hkey] at hmem
    exact absurd hmem (by decide)
  rw [findValue_key (rowsFor_known "v" [always "v" [.valueRequired]] (by decide)),
    filter_arguments (by decide), hnone]
  rfl

theorem findValue_domain : findValue ((globalCmdArgs build).map
    (applyAll (arguments clientName path norm options))) "d" = none := by
  have hnone : (queryOf norm options).filter (fun p => p.1 = "d") = [] := by
    refine filter_eq_nil_iff.2 fun p hp hkey => ?_
    have hmem := key_mem_paramKeys hp
    rw [of_decide_eq_true hkey] at hmem
    exact absurd hmem (by decide)
  rw [findValue_key (rowsFor_known "d" [always "d" [.valueRequired]] (by decide)),
    filter_arguments (by decide), hnone]
  rfl

/-- The password is there unless it was left out or taken for a switch. -/
theorem findValue_password : findValue ((globalCmdArgs build).map
    (applyAll (arguments clientName path norm options))) "p" =
      ((notBlank norm.password).filter fun p => !isSwitch p).map .text := by
  have hmem : ("p", notBlank norm.password) ∈
      credentialEntries norm ++ optionEntries options :=
    mem_append_left _ (by simp [credentialEntries])
  rw [findValue_key (rowsFor_known "p" [always "p" [.valueOptional]] (by decide)),
    filter_arguments (by decide), filter_queryOf hmem]
  cases notBlank norm.password with
  | none => rfl
  | some password =>
    by_cases hswitch : isSwitch password = true
    · rw [Option.filter_some_neg (by simp [hswitch])]
      simp [paramParts, hswitch, CommandLineArgument.set]
    · rw [Option.filter_some_pos (by simp [hswitch])]
      simp [paramParts, hswitch, CommandLineArgument.set]

end Carried

/-! ## The user -/

section User

variable {build : BuildOption → Bool} {clientName path : CodeUnits}
  {profile norm : ConnectionProfile} {options : RdpOptions} {s user domain : Option CodeUnits}
  {t : CodeUnits}

theorem notBlank_trim (h : trim t ≠ []) : notBlank (some (trim t)) = some (trim t) :=
  Option.filter_some_pos (by rw [not_isBlank_trim h]; rfl)

theorem notBlank_trimmed : notBlank (trimmed s) = trimmed s := by
  cases hs : trimmed s with
  | none => rfl
  | some t =>
    obtain ⟨hmap, hne⟩ := Option.filter_eq_some_iff.1 hs
    obtain ⟨t', -, rfl⟩ := Option.map_eq_some_iff.1 hmap
    exact notBlank_trim (of_decide_eq_true hne)

theorem resolveUser_notBlank (huser : notBlank user = user) (hdomain : notBlank domain = domain) :
    notBlank (resolveUser user domain).1 = (resolveUser user domain).1 ∧
      notBlank (resolveUser user domain).2 = (resolveUser user domain).2 := by
  rw [resolveUser.eq_def]
  cases user with
  | none => exact ⟨huser, hdomain⟩
  | some text =>
    cases hslash : text.idxOf? 0x5C with
    | none =>
      simp only [hslash]
      exact ⟨huser, hdomain⟩
    | some slashIdx =>
      simp only [hslash]
      split
      · rename_i hsplit
        rw [Bool.and_eq_true] at hsplit
        refine ⟨notBlank_trim (by simpa using hsplit.2), ?_⟩
        show notBlank (if _ then some _ else domain) = if _ then some _ else domain
        split
        · rename_i hpart
          rw [Bool.and_eq_true] at hpart
          exact notBlank_trim (by simpa using hpart.1)
        · exact hdomain
      · exact ⟨huser, hdomain⟩

theorem normalizeProfile_notBlank (hnorm : normalizeProfile profile = some norm) :
    notBlank norm.username = norm.username ∧ notBlank norm.domain = norm.domain := by
  unfold normalizeProfile at hnorm
  obtain ⟨-, -, huser, -, hdomain⟩ := ConnectionProfile.copy_eq_some_iff.1 hnorm
  rw [huser, hdomain]
  exact resolveUser_notBlank notBlank_trimmed notBlank_trimmed

/-- The user is there, from the authority or from the parameter. -/
theorem findValue_user (hnorm : normalizeProfile profile = some norm) : findValue ((globalCmdArgs build).map
    (applyAll (arguments clientName path norm options))) "u" =
      norm.username.map .text := by
  have hmem : ("u", (notBlank norm.username).filter
      fun user => needsQueryParamUser (some user)) ∈
      credentialEntries norm ++ optionEntries options :=
    mem_append_left _ mem_cons_self
  rw [findValue_key (rowsFor_known "u" [always "u" [.valueRequired]] (by decide)),
    filter_arguments (by decide), filter_queryOf hmem, authorityUser,
    (normalizeProfile_notBlank hnorm).1]
  cases norm.username with
  | none => rfl
  | some user =>
    cases hparam : needsQueryParamUser (some user) with
    | true =>
      rw [Option.filter_some_neg (by simp [hparam]), Option.filter_some_pos (by simp [hparam])]
      simp [paramParts, isSwitch_of_needsQueryParamUser hparam, CommandLineArgument.set]
    | false =>
      rw [Option.filter_some_pos (by simp [hparam]), Option.filter_some_neg (by simp [hparam])]
      rfl

end User

/-! ## The server -/

section Server

variable {host address rest value : CodeUnits} {n : Nat} {norm : ConnectionProfile}

/-- A text without slashes names no scheme. -/
theorem findScheme_none (h : 0x2F ∉ value) : findScheme value = none := by
  rw [findScheme, find?_eq_none]
  intro i _ hprefix
  have hmem : (0x2F : UInt16) ∈ value.drop i :=
    (List.isPrefixOf_iff_prefix.1 hprefix).subset (by decide)
  exact h (mem_of_mem_drop hmem)

theorem not_mem_port {u : UInt16} (hu : u ∈ lit "/[") : u ∉ 0x3A :: decimal n := by
  have hne : ∀ u ∈ lit "/[", u ≠ 0x3A ∧ ¬ (0x30 ≤ u ∧ u ≤ 0x39) := by decide
  obtain ⟨hcolon, hdigit⟩ := hne u hu
  intro hmem
  rcases mem_cons.1 hmem with heq | hmem
  · exact hcolon heq
  · exact hdigit ⟨(mem_decimal hmem).1, (mem_decimal hmem).2.1⟩

theorem parseHostOptions_name (h : IsName host) : parseHostOptions host = some (host, none) := by
  have hopening : host.idxOf? 0x5B = none :=
    idxOf?_eq_none_iff.2 fun hmem => h.2 _ hmem (by decide)
  have hcolon : host.idxOf? 0x3A = none := idxOf?_eq_none_iff.2 (colon_not_mem_name h)
  have hscheme : findScheme host = none := findScheme_none fun hmem => h.2 _ hmem (by decide)
  simp only [parseHostOptions, hopening, hscheme, Option.elim_none, drop_zero, hcolon]

theorem parseHostOptions_name_port (h : IsName host) (hpos : 0 < n) (hport : n ≤ 65535) :
    parseHostOptions (host ++ 0x3A :: decimal n) = some (host, some n) := by
  have hnot : ∀ u ∈ lit "/[", u ∉ host ++ 0x3A :: decimal n := by
    have hspecial : ∀ u ∈ lit "/[", u ∈ lit ":/?#[]@%" := by decide
    intro u hu hmem
    rcases mem_append.1 hmem with hmem | hmem
    · exact h.2 u hmem (hspecial u hu)
    · exact not_mem_port hu hmem
  have hopening : (host ++ 0x3A :: decimal n).idxOf? 0x5B = none :=
    idxOf?_eq_none_iff.2 (hnot 0x5B (by decide))
  have hscheme : findScheme (host ++ 0x3A :: decimal n) = none :=
    findScheme_none (hnot 0x2F (by decide))
  have hcolon := indexOf_append_cons (b := decimal n) (colon_not_mem_name h)
  have hdrop : (host ++ 0x3A :: decimal n).drop (host.length + 1) = decimal n := by simp
  have hnumber : valueToInt (decimal n) 1 65535 = some (n : Int) :=
    valueToInt_decimal (by omega) hpos hport
  simp only [parseHostOptions, hopening, hscheme, Option.elim_none, drop_zero, hcolon,
    Nat.zero_add, hdrop, hnumber, Option.map_some, Int.toNat_natCast, take_left]

/-- A literal in brackets and what comes behind it. -/
theorem parseHostOptions_literal (h : IsIpv6 address) :
    parseHostOptions (0x5B :: address ++ 0x5D :: rest) =
      if rest.head? = some 0x3A then
        (valueToInt (rest.drop 1) 0 65535).map fun port => (address, some port.toNat)
      else some (address, none) := by
  have hopening : (0x5B :: address ++ 0x5D :: rest).idxOf? 0x5B = some 0 :=
    indexOf_append_cons (a := []) not_mem_nil
  have hnot : (0x5D : UInt16) ∉ 0x5B :: address := by
    intro hmem
    rcases mem_cons.1 hmem with heq | hmem
    · exact absurd heq (by decide)
    · exact absurd (h.2 _ hmem) (by decide)
  have hclosing := indexOf_append_cons (b := rest) hnot
  have hlength : (0x5B :: address).length = address.length + 1 := length_cons
  have hname : ((0x5B :: address ++ 0x5D :: rest).drop (0 + 1)).take
      (address.length + 1 - 0 - 1) = address := by simp
  have hnext : (0x5B :: address ++ 0x5D :: rest)[address.length + 1 + 1]? = rest.head? := by
    rw [head?_eq_getElem?, getElem?_append_right (by simp)]
    simp
  have hdrop : (0x5B :: address ++ 0x5D :: rest).drop (address.length + 1 + 2) = rest.drop 1 := by
    rw [drop_append, drop_eq_nil_of_le (by simp)]
    simp
  have hinside : ¬ address.length + 1 < 0 := by omega
  simp only [parseHostOptions, hopening, hclosing, hlength, Option.bind_some, if_neg hinside,
    hname, hnext, hdrop]

/-- **The core reads the host and the port of the profile.** -/
theorem parseHostOptions_serverText (hhost : IsHost norm.host)
    (hport : 1 ≤ norm.port ∧ norm.port ≤ 65535) :
    ∃ port, parseHostOptions (serverText norm) = some (bareHost norm.host, port) ∧
      ((port.getD 3389 : Nat) : Int) = norm.port := by
  have hnumber : valueToInt (decimal norm.port.toNat) 0 65535 = some (norm.port.toNat : Int) :=
    valueToInt_decimal (by omega) (by omega) (by omega)
  rw [serverText]
  by_cases hdefault : norm.port = 3389
  · rw [if_neg (not_not.2 hdefault), append_nil]
    refine ⟨none, ?_, hdefault.symm⟩
    rcases uriHost_cases hhost with ⟨hname, heq, hbare⟩ | ⟨address, haddress, heq, hbare⟩
    · rw [heq, hbare, parseHostOptions_name hname]
    · rw [heq, hbare, parseHostOptions_literal haddress]
      rfl
  · rw [if_pos hdefault, decimalInt_of_nonneg (by omega)]
    refine ⟨some norm.port.toNat, ?_, Int.toNat_of_nonneg (by omega)⟩
    rcases uriHost_cases hhost with ⟨hname, heq, hbare⟩ | ⟨address, haddress, heq, hbare⟩
    · rw [heq, hbare]
      exact parseHostOptions_name_port hname (by omega) (by omega)
    · rw [heq, hbare, append_assoc, singleton_append,
        parseHostOptions_literal haddress, head?_cons, if_pos rfl, drop_one,
        tail_cons, hnumber]
      rfl

end Server

/-! ## Which connections are understood -/

/-- The options carry the profile; a port that is not there is the default one, and an empty
password is none. -/
structure Carries (opts : List CommandLineArgument) (norm : ConnectionProfile) : Prop where
  server : ∃ v port, findValue opts "v" = some (.text v) ∧
    parseHostOptions v = some (bareHost norm.host, port) ∧
    ((port.getD 3389 : Nat) : Int) = norm.port
  user : findValue opts "u" = norm.username.map .text
  password : findValue opts "p" = (norm.password.filter fun p => p ≠ []).map .text
  domain : findValue opts "d" = norm.domain.map .text

/-- The core understands the URI of a connection: the table admits each argument behind the
name of the program, the parser reads them, and the options carry the profile. -/
def Understood (build : BuildOption → Bool) (postFilter : String → Option Value → Bool)
    (parser : UriParser) (clientName path : CodeUnits) (profile : ConnectionProfile)
    (options : RdpOptions) : Prop :=
  ∃ norm uri, normalizeProfile profile = some norm ∧ RdpUri.build profile options = some uri ∧
    (∀ text ∈ (setConnectionInfo parser clientName path uri).drop 1,
      ∃ a : Argument, a.WellFormed ∧ a.text = text ∧ a.AdmittedBy (globalCmdArgs build)) ∧
    ∃ opts, commandLineParseArgumentsA postFilter (globalCmdArgs build)
        (setConnectionInfo parser clientName path uri) = .ok opts ∧
      Carries opts norm

section Understood

variable {build : BuildOption → Bool} {postFilter : String → Option Value → Bool}
  {parser : UriParser} {clientName path : CodeUnits} {profile norm : ConnectionProfile}
  {options : RdpOptions} {options' : List CommandLineArgument} {key : String}
  {v : CodeUnits} {value : Option CodeUnits}

/-- The URI that has to be understood is the one of the normalised profile. -/
theorem understood_iff (hnorm : normalizeProfile profile = some norm) :
    Understood build postFilter parser clientName path profile options ↔
      (∀ text ∈ (setConnectionInfo parser clientName path (uriOf norm options)).drop 1,
        ∃ a : Argument, a.WellFormed ∧ a.text = text ∧ a.AdmittedBy (globalCmdArgs build)) ∧
      ∃ opts, commandLineParseArgumentsA postFilter (globalCmdArgs build)
          (setConnectionInfo parser clientName path (uriOf norm options)) = .ok opts ∧
        Carries opts norm := by
  have hbuild : RdpUri.build profile options = some (uriOf norm options) := by
    rw [build_eq, hnorm]
    rfl
  constructor
  · rintro ⟨norm', uri, hnorm', huri, hunderstood⟩
    obtain rfl := Option.some.inj (hnorm.symm.trans hnorm')
    obtain rfl := Option.some.inj (hbuild.symm.trans huri)
    exact hunderstood
  · exact fun hunderstood => ⟨norm, _, hnorm, hbuild, hunderstood⟩

/-- The arguments are read one by one: the first is no file. -/
theorem parse_arguments : commandLineParseArgumentsA postFilter options'
    (lit "LibFreeRDP" :: (arguments clientName path norm options).map Argument.text) =
      ((arguments clientName path norm options).map Argument.text).foldlM
        (parseArgument postFilter) options' := by
  obtain ⟨rest, hrest⟩ : ∃ rest, arguments clientName path norm options =
      ⟨0x2F, lit "gdi", some (lit "sw")⟩ :: rest := ⟨_, rfl⟩
  have hfile : ¬ isFile (⟨0x2F, lit "gdi", some (lit "sw")⟩ : Argument).text = true := by decide
  rw [hrest, map_cons, commandLineParseArgumentsA, foldlM_cons, if_neg hfile]

theorem paramParts_mem {p : String × CodeUnits} (hp : p ∈ queryOf norm options) :
    paramParts path p ∈ arguments clientName path norm options := by
  simp only [arguments, mem_append, mem_map]
  exact inl (inr ⟨p, hp, rfl⟩)

theorem admits_required : ({ name := key, flags := [.valueRequired] } :
    CommandLineArgument).admits value = value.isSome := by
  cases value <;> rfl

theorem not_sign_of_admitted (hrows : rowsFor key = [always key [.valueRequired]])
    (hmem : (key, some v) ∈ optionEntries options)
    (h : ∀ a ∈ arguments clientName path norm options, a.AdmittedBy (globalCmdArgs build)) :
    v ≠ lit "+" ∧ v ≠ lit "-" := by
  have hparam : (key, v) ∈ queryOf norm options :=
    mem_params.2 (mem_append_right _ hmem)
  have hadmits := admits_of_rowsFor hrows keyword_paramParts (h _ (paramParts_mem hparam))
  rw [admits_required, value_paramParts] at hadmits
  constructor
  · rintro rfl
    exact absurd (show (!isSwitch (lit "+")) = true from hadmits) (by decide)
  · rintro rfl
    exact absurd (show (!isSwitch (lit "-")) = true from hadmits) (by decide)

/-- The password is carried when it is empty, or neither blank nor a sign. -/
theorem password_iff {password : Option CodeUnits} :
    ((notBlank password).filter fun p => !isSwitch p).map Value.text =
      (password.filter fun p => p ≠ []).map Value.text ↔
      ∀ p ∈ password, p = [] ∨ isBlank p = false ∧ p ≠ lit "+" ∧ p ≠ lit "-" := by
  rw [(Option.map_injective fun _ _ heq => Value.text.inj heq).eq_iff]
  cases password with
  | none => exact ⟨fun _ p hp => absurd hp (Option.not_mem_none p), fun _ => rfl⟩
  | some p =>
    by_cases hne : p = []
    · rw [hne]
      refine ⟨fun _ p hp => inl ?_, fun _ => by decide⟩
      exact (Option.mem_some_iff.1 hp).symm
    · have hkeep : (some p).filter (fun p => p ≠ []) = some p :=
        Option.filter_some_pos (decide_eq_true hne)
      rw [hkeep]
      constructor
      · intro h p' hp'
        obtain rfl := Option.mem_some_iff.1 hp'
        obtain ⟨hsent, hswitch⟩ := Option.filter_eq_some_iff.1 h
        obtain ⟨-, hblank⟩ := Option.filter_eq_some_iff.1 hsent
        refine inr ⟨by simpa using hblank, ?_, ?_⟩
        · rintro rfl
          exact absurd hswitch (by decide)
        · rintro rfl
          exact absurd hswitch (by decide)
      · intro h
        obtain hnil | ⟨hblank, hsigns⟩ := h p rfl
        · exact absurd hnil hne
        · have hsent : notBlank (some p) = some p :=
            Option.filter_some_pos (by rw [hblank]; rfl)
          rw [hsent]
          exact Option.filter_some_pos (by rw [isSwitch_eq_false hne hsigns]; rfl)

/-- **A domain fails the whole vector**, since no option has the keyword it is sent under. -/
theorem not_parsed_of_domain (hnorm : normalizeProfile profile = some norm)
    (hhost : IsHost norm.host) (hdomain : norm.domain = some v) :
    commandLineParseArgumentsA postFilter (globalCmdArgs build)
      (setConnectionInfo parser clientName path (uriOf norm options)) ≠ .ok options' := by
  rw [setConnectionInfo_eq hhost, parse_arguments]
  intro hparse
  obtain ⟨hadmitted, -⟩ := admitted_of_run (fun a ha => wellFormed_arguments ha) hparse
  have hentry : ("domain", some v) ∈ credentialEntries norm := by
    rw [← hdomain, ← (normalizeProfile_notBlank hnorm).2]
    simp [credentialEntries]
  have hparam : ("domain", v) ∈ queryOf norm options :=
    mem_params.2 (mem_append_left _ hentry)
  obtain ⟨cur, hcur, hmatch⟩ := (hadmitted _ (paramParts_mem hparam)).found
  rw [keyword_paramParts] at hmatch
  obtain ⟨row, hrow, -⟩ := mem_rowsFor hcur hmatch
  rw [rowsFor_known "domain" [] (by decide)] at hrow
  exact not_mem_nil hrow

/-- **A connection is understood exactly when it can be told to the core.** -/
theorem understood_iff_expressible (hnorm : normalizeProfile profile = some norm)
    (hhost : IsHost norm.host) (hfilter : AcceptsChannels postFilter path) :
    Understood build postFilter parser clientName path profile options ↔
      Expressible norm options := by
  rw [understood_iff hnorm, setConnectionInfo_eq hhost, parse_arguments]
  constructor
  · rintro ⟨-, opts, hparse, hcarries⟩
    obtain ⟨hadmitted, rfl⟩ := admitted_of_run (fun a ha => wellFormed_arguments ha) hparse
    have hdomain := hcarries.domain
    have hpassword := hcarries.password
    rw [findValue_domain] at hdomain
    rw [findValue_password] at hpassword
    refine ⟨(Option.map_eq_none_iff.1 hdomain.symm), password_iff.1 hpassword,
      fun hpc program hprogram => ?_, fun hpc directory hdirectory => ?_⟩
    · have hentry : ("shell", some program) ∈ optionEntries options := by
        have hsent : (trimmed options.remoteProgram).filter (fun _ => !options.pcConnectMode) =
            some program := Option.filter_eq_some_iff.2 ⟨hprogram, by rw [hpc]; rfl⟩
        rw [← hsent]
        simp [optionEntries]
      exact not_sign_of_admitted (rowsFor_known "shell" _ (by decide)) hentry hadmitted
    · have hentry : ("shell-dir", some directory) ∈ optionEntries options := by
        have hsent : (trimmed options.remoteWorkDir).filter (fun _ => !options.pcConnectMode) =
            some directory := Option.filter_eq_some_iff.2 ⟨hdirectory, by rw [hpc]; rfl⟩
        rw [← hsent]
        simp [optionEntries]
      exact not_sign_of_admitted (rowsFor_known "shell-dir" _ (by decide)) hentry hadmitted
  · intro h
    have hargs : ∀ a ∈ arguments clientName path norm options, a.WellFormed ∧
        a.AdmittedBy (globalCmdArgs build) ∧ a.Passes postFilter (globalCmdArgs build) :=
      fun a ha => ⟨wellFormed_arguments ha, arguments_admitted h ha, arguments_pass hfilter h ha⟩
    refine ⟨fun text htext => ?_, _, run_ok hargs, ?_⟩
    · obtain ⟨a, ha, rfl⟩ := mem_map.1 htext
      exact ⟨a, (hargs a ha).1, rfl, (hargs a ha).2.1⟩
    · obtain ⟨port, hserver, hnumber⟩ :=
        parseHostOptions_serverText hhost norm.inRange
      refine ⟨⟨_, port, findValue_server, hserver, hnumber⟩, findValue_user hnorm, ?_, ?_⟩
      · rw [findValue_password]
        exact password_iff.2 h.password
      · rw [findValue_domain, h.domain]
        rfl

end Understood

/-! ## The parts that Android finds -/

/-- `findPortSeparator`, from the end of the authority. -/
def findPortSeparator : CodeUnits → Option Nat
  | [] => none
  | c :: before =>
    if c = 0x3A then some before.length
    else if 0x30 ≤ c && c ≤ 0x39 then findPortSeparator before
    else none

/-- The user of an authority without escapes. -/
def androidUserInfo (authority : CodeUnits) : Option CodeUnits :=
  (lastIndexOf 0x40 authority).map authority.take

/-- The host of an authority without escapes. -/
def androidHost (authority : CodeUnits) : CodeUnits :=
  let start := (lastIndexOf 0x40 authority).elim 0 (· + 1)
  match findPortSeparator authority.reverse with
  | some separator => (authority.take separator).drop start
  | none => authority.drop start

/-- The port of an authority. -/
def androidPort (authority : CodeUnits) : Int :=
  match findPortSeparator authority.reverse with
  | some separator => (toIntOrNull (authority.drop (separator + 1))).getD (-1)
  | none => -1

section Android

variable {authority start host user rest : CodeUnits} {n : Nat}

/-- The port is behind the last colon. -/
theorem findPortSeparator_port : findPortSeparator (authority ++ 0x3A :: decimal n).reverse =
    some authority.length := by
  have hdigits : ∀ ds : CodeUnits, (∀ u ∈ ds, 0x30 ≤ u ∧ u ≤ 0x39) →
      findPortSeparator (ds ++ 0x3A :: authority.reverse) = some authority.length := by
    intro ds
    induction ds with
    | nil =>
      intro _
      rw [nil_append, findPortSeparator, if_pos rfl, length_reverse]
    | cons u ds ih =>
      intro hds
      obtain ⟨hlow, hhigh⟩ := hds u mem_cons_self
      have hcolon : ¬ u = 0x3A := by
        rintro rfl
        exact absurd hhigh (by decide)
      rw [cons_append, findPortSeparator, if_neg hcolon, if_pos (by simp [hlow, hhigh])]
      exact ih fun u' hu' => hds u' (mem_cons_of_mem u hu')
  have hreverse : (authority ++ 0x3A :: decimal n).reverse =
      (decimal n).reverse ++ 0x3A :: authority.reverse := by simp
  rw [hreverse]
  refine hdigits _ fun u hu => ?_
  obtain ⟨hlow, hhigh, -⟩ := mem_decimal (mem_reverse.1 hu)
  exact ⟨hlow, hhigh⟩

theorem findPortSeparator_host (hstart : IsUserInfo start) (hhost : IsUriHost host) :
    findPortSeparator (start ++ host).reverse = none := by
  -- what is in front of the host stops the search
  have hfront : findPortSeparator start.reverse = none := by
    rcases hstart with rfl | ⟨user, -, rfl⟩
    · rfl
    · rw [reverse_append]
      rfl
  rw [reverse_append]
  rcases hhost with hname | ⟨address, -, rfl⟩
  · have hnocolon : ∀ h : CodeUnits, (∀ u ∈ h, u ≠ 0x3A) →
        findPortSeparator (h ++ start.reverse) = none := by
      intro h
      induction h with
      | nil => exact fun _ => hfront
      | cons u h ih =>
        intro hcolon
        rw [cons_append, findPortSeparator, if_neg (hcolon u mem_cons_self)]
        split
        · exact ih fun u' hu' => hcolon u' (mem_cons_of_mem u hu')
        · rfl
    refine hnocolon _ fun u hu heq => ?_
    rw [mem_reverse, heq] at hu
    exact colon_not_mem_name hname hu
  · rw [reverse_append]
    rfl

/-- The host begins behind the user. -/
theorem lastIndexOf_start (hstart : IsUserInfo start) (hrest : 0x40 ∉ rest) :
    (lastIndexOf 0x40 (start ++ rest)).elim 0 (· + 1) = start.length := by
  rcases hstart with rfl | ⟨user, -, rfl⟩
  · have hnone : lastIndexOf 0x40 rest = none := by
      rw [lastIndexOf, Option.map_eq_none_iff, idxOf?_eq_none_iff, mem_reverse]
      exact hrest
    rw [nil_append, hnone]
    rfl
  · rw [append_assoc, singleton_append, lastIndexOf_append_cons hrest]
    simp

theorem androidHost_port {port : Nat} (hstart : IsUserInfo start) (hhost : IsUriHost host)
    (hpos : 0 < port) (hport : port ≤ 65535) :
    some (androidHost (start ++ host ++ 0x3A :: decimal port)) = some host ∧
      androidPort (start ++ host ++ 0x3A :: decimal port) = port := by
  have hat : (0x40 : UInt16) ∉ host ++ 0x3A :: decimal port := by
    intro hmem
    rcases mem_append.1 hmem with hmem | hmem
    · exact at_not_mem_uriHost hhost hmem
    · rcases mem_cons.1 hmem with heq | hmem
      · exact absurd heq (by decide)
      · exact absurd (mem_decimal hmem).2.1 (by decide)
  have hbegin := lastIndexOf_start hstart hat
  rw [← append_assoc] at hbegin
  rw [androidHost, androidPort, hbegin, findPortSeparator_port]
  have hdrop : (start ++ host ++ 0x3A :: decimal port).drop ((start ++ host).length + 1) =
      decimal port := by
    rw [← drop_drop, drop_left]
    rfl
  have hnumber : toIntOrNull (decimal port) = some (port : Int) :=
    toIntOrNull_decimal (by omega)
  simp only [take_left, drop_left, hdrop, hnumber]
  exact ⟨trivial, rfl⟩

theorem androidHost_alone (hstart : IsUserInfo start) (hhost : IsUriHost host) :
    some (androidHost (start ++ host)) = some host ∧ androidPort (start ++ host) = -1 := by
  rw [androidHost, androidPort, lastIndexOf_start hstart (at_not_mem_uriHost hhost),
    findPortSeparator_host hstart hhost]
  exact ⟨congrArg some drop_left, rfl⟩

/-- The URIs of Android, for authorities without escapes. -/
def androidUri : UriParser where
  getUserInfo := androidUserInfo
  getHost authority := some (androidHost authority)
  getPort := androidPort
  userInfo_user := by
    intro user rest _ hrest
    rw [androidUserInfo, lastIndexOf_append_cons hrest, Option.map_some, take_left]
  userInfo_none := by
    intro authority hnone
    rw [androidUserInfo, lastIndexOf, idxOf?_eq_none_iff.2 (mt mem_reverse.1 hnone)]
    rfl
  host_port := androidHost_port
  host_alone := androidHost_alone

end Android

/-! ## A connection with a domain and one without -/

/-- A server of a company. -/
def sampleProfile (domain : Option CodeUnits) : ConnectionProfile :=
  ⟨lit "10.0.0.5", 3389, some (lit "user"), some (lit "secret"), domain, by decide,
    rdpPort_inRange⟩

theorem sampleProfile_host (domain : Option CodeUnits) : IsHost (sampleProfile domain).host :=
  have hname : IsName (lit "10.0.0.5") := ⟨by decide, by decide⟩
  inl (inl hname)

/-- Without a domain the core understands the URI. -/
theorem understood_iff_expressible_sample :
    Understood (fun _ => false) (fun _ _ => true) androidUri [] [] (sampleProfile none) {} := by
  have hnorm : normalizeProfile (sampleProfile none) = some (sampleProfile none) := by
    unfold normalizeProfile
    rfl
  refine (understood_iff_expressible hnorm (sampleProfile_host none)
    ⟨fun _ _ _ => rfl, rfl, rfl, rfl, rfl, fun _ => rfl, rfl⟩).2
    ⟨rfl, fun password hpassword => inr ?_, fun _ program hprogram => ?_,
      fun _ directory hdirectory => ?_⟩
  · rw [← Option.mem_some_iff.1 hpassword]
    decide
  · exact absurd hprogram (Option.not_mem_none program)
  · exact absurd hdirectory (Option.not_mem_none directory)

/-- With a domain it does not: the parser fails. -/
theorem not_understood_domain :
    ¬ Understood (fun _ => false) (fun _ _ => true) androidUri [] []
      (sampleProfile (some (lit "CORP"))) {} := by
  have hnorm : normalizeProfile (sampleProfile (some (lit "CORP"))) =
      some (sampleProfile (some (lit "CORP"))) := by
    unfold normalizeProfile
    rfl
  rw [understood_iff hnorm]
  rintro ⟨-, opts, hparse, -⟩
  exact not_parsed_of_domain hnorm (sampleProfile_host _) rfl hparse

end RdpUri
