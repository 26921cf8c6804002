/-
# The gateway argument

The client hands the RD gateway over to the RDP core as one argument,
`g:host[:port][,u:user][,d:domain][,p:password]`, which the core splits at its commas,
unescapes and interprets option by option.  The client puts the fields in as they are.

A field that is blank is not given.
-/
import XyDeskRemote.CommaSeparated
import XyDeskRemote.KotlinText

open WorkerText (lit)
open KotlinText CommaSeparated List

/-! ## The client -/

/-- The gateway as the client has it. -/
structure XyGateway where
  host : CodeUnits
  port : Int
  username : Option CodeUnits
  password : Option CodeUnits
  domain : Option CodeUnits

/-- `takeIf { it.isNotBlank() }`. -/
def notBlank (s : Option CodeUnits) : Option CodeUnits := s.filter fun t => !isBlank t

/-- `RdpUri.gatewayArg`. -/
def gatewayArg (g : XyGateway) : CodeUnits :=
  let append (start : String) (field : Option CodeUnits) : CodeUnits :=
    match notBlank field with
    | some text => lit start ++ text
    | none => []
  lit "g:" ++ g.host ++ (if g.port ≠ 443 then 0x3A :: decimalInt g.port else []) ++
    append ",u:" g.username ++ append ",d:" g.domain ++ append ",p:" g.password

/-! ## The settings -/

/-- The settings of the core for a gateway. -/
structure GatewaySettings where
  enabled : Bool
  hostname : Option CodeUnits
  port : Nat
  username : Option CodeUnits
  domain : Option CodeUnits
  password : Option CodeUnits
  useSameCredentials : Bool
  usageMethod : Nat
  bypassLocal : Bool
  rpcTransport : Bool
  httpTransport : Bool
  httpUseWebsockets : Bool
  httpExtAuthSspiNtlm : Bool
  armTransport : Bool
  httpExtAuthBearer : Option CodeUnits
  accessToken : Option CodeUnits
  url : Option CodeUnits
  responseTimeout : Nat
  deriving DecidableEq

/-- The settings of `freerdp_settings_new`. -/
def GatewaySettings.new : GatewaySettings where
  enabled := false
  hostname := none
  port := 443
  username := none
  domain := none
  password := none
  useSameCredentials := false
  usageMethod := 0
  bypassLocal := false
  rpcTransport := true
  httpTransport := true
  httpUseWebsockets := true
  httpExtAuthSspiNtlm := false
  armTransport := false
  httpExtAuthBearer := none
  accessToken := none
  url := none
  responseTimeout := 15000

/-! ## The C library -/

/-- `tolower`. -/
def toLower (c : UInt16) : UInt16 := if 0x41 ≤ c && c ≤ 0x5A then c + 0x20 else c

/-- `_stricmp(what, val) == 0`. -/
def optionEquals (what : String) (val : CodeUnits) : Bool :=
  val.map toLower = (lit what).map toLower

/-- `option_starts_with`: what follows, in any case of the letters. -/
def optionStartsWith (what : String) (val : CodeUnits) : Option CodeUnits :=
  if (val.take (lit what).length).map toLower = (lit what).map toLower then
    some (val.drop (lit what).length)
  else none

/-- A digit of some base up to 16. -/
def baseDigit (c : UInt16) : Option Nat :=
  if 0x30 ≤ c && c ≤ 0x39 then some (c.toNat - 0x30)
  else if 0x61 ≤ toLower c && toLower c ≤ 0x66 then some ((toLower c).toNat - 0x57)
  else none

/-- The base of a number, and the text of its digits. -/
def detectBase (s : CodeUnits) : Nat × CodeUnits :=
  if s.head? = some 0x30 then
    if (optionStartsWith "0x" s).any fun rest => (rest.head?.bind baseDigit).isSome then
      (16, s.drop 2)
    else (8, s)
  else (10, s)

/-- `_strtoi64(value, nullptr, 0)`; `none` when it sets `errno`. -/
def strtoi64 (value : CodeUnits) : Option Int :=
  let s := value.dropWhile fun c => c = 0x20 || (0x09 ≤ c && c ≤ 0x0D)
  let negative := s.head? = some 0x2D
  let s := if negative || s.head? = some 0x2B then s.tail else s
  let (base, s) := detectBase s
  let digits := (s.map baseDigit).takeWhile fun d => d.any (· < base)
  let n : Int := Numeral.value base digits.reduceOption
  let n := if negative then -n else n
  if -2 ^ 63 ≤ n ∧ n < 2 ^ 63 then some n else none

/-- `value_to_int`. -/
def valueToInt (value : CodeUnits) (lo hi : Int) : Option Int :=
  (strtoi64 value).filter fun n => lo ≤ n ∧ n ≤ hi

/-! ## The interpreter -/

/-- `freerdp_parse_username_ptr`: the user and the domain in front of a backslash. -/
def parseUsername (username : CodeUnits) : CodeUnits × Option CodeUnits :=
  match username.idxOf? 0x5C with
  | some i => (username.drop (i + 1), some (username.take i))
  | none => (username, none)

/-- `freerdp_parse_hostname`: the host and the port behind the last colon. -/
def parseHostname (hostname : CodeUnits) : Option (CodeUnits × Option Nat) :=
  match lastIndexOf 0x3A hostname with
  | some i =>
    (valueToInt (hostname.drop (i + 1)) 1 65535).map fun port =>
      (hostname.take i, some port.toNat)
  | none => some (hostname, none)

namespace GatewaySettings

/-- `freerdp_set_gateway_usage_method`. -/
def setGatewayUsageMethod (s : GatewaySettings) (method : Nat) : GatewaySettings :=
  let s := { s with usageMethod := method }
  match method with
  | 0 => { s with enabled := false, bypassLocal := false }
  | 1 => { s with enabled := true, bypassLocal := false }
  | 2 => { s with enabled := true, bypassLocal := true }
  | 3 => { s with enabled := false, bypassLocal := false }
  | 4 => { s with enabled := false, bypassLocal := false }
  | _ => s

/-- `parse_gateway_host_option`. -/
def parseGatewayHostOption (s : GatewaySettings) (host : CodeUnits) : Option GatewaySettings :=
  (parseHostname host).map fun (name, port) =>
    { s with
      hostname := some name
      port := port.getD s.port
      useSameCredentials := true }.setGatewayUsageMethod 1

/-- `parse_gateway_cred_option` of the user. -/
def parseGatewayUserOption (s : GatewaySettings) (value : CodeUnits) : Option GatewaySettings :=
  let (user, domain) := parseUsername value
  some { s with username := some user, domain := domain, useSameCredentials := false }

/-- `parse_gateway_cred_option` of the domain. -/
def parseGatewayDomainOption (s : GatewaySettings) (value : CodeUnits) :
    Option GatewaySettings :=
  some { s with domain := some value, useSameCredentials := false }

/-- `parse_gateway_cred_option` of the password. -/
def parseGatewayPasswordOption (s : GatewaySettings) (value : CodeUnits) :
    Option GatewaySettings :=
  some { s with password := some value, useSameCredentials := false }

/-- `parse_gateway_type_option`. -/
def parseGatewayTypeOption (s : GatewaySettings) (value : CodeUnits) :
    Option GatewaySettings :=
  if optionEquals "rpc" value then
    some
      { s with
        rpcTransport := true, httpTransport := false, httpUseWebsockets := false,
        armTransport := false }
  else if optionEquals "http" value then
    some { s with rpcTransport := false, httpTransport := true, armTransport := false }
  else if optionEquals "auto" value then
    some { s with rpcTransport := true, httpTransport := true, armTransport := false }
  else if optionEquals "arm" value then
    some
      { s with
        rpcTransport := false, httpTransport := false, httpUseWebsockets := false,
        armTransport := true }
  else none

/-- `parse_gateway_usage_option`. -/
def parseGatewayUsageOption (s : GatewaySettings) (value : CodeUnits) :
    Option GatewaySettings :=
  if optionEquals "none" value then some (s.setGatewayUsageMethod 0)
  else if optionEquals "direct" value then some (s.setGatewayUsageMethod 1)
  else if optionEquals "detect" value then some (s.setGatewayUsageMethod 2)
  else if optionEquals "default" value then some (s.setGatewayUsageMethod 3)
  else (valueToInt value 0 4).map fun n => s.setGatewayUsageMethod n.toNat

end GatewaySettings

/-- `unescape`, with its flag. -/
def unescapeFrom : Bool → CodeUnits → CodeUnits
  | _, [] => []
  | escaped, cur :: str =>
    if cur = 0x5C && !escaped then unescapeFrom true str else cur :: unescapeFrom false str

/-- A text without its backslashes. -/
def unescape (str : CodeUnits) : CodeUnits := unescapeFrom false str

/-- What the loop over the options keeps: the settings, whether the option was valid, and
whether options of the HTTP transport may follow. -/
structure OptionState where
  settings : GatewaySettings
  validOption : Bool
  allowHttpOpts : Bool

/-- One `if` of the loop: an option that starts with `what`. -/
def OptionState.tryOption (o : OptionState) (argval : CodeUnits) (what : String)
    (parse : GatewaySettings → CodeUnits → Option GatewaySettings)
    (allow : GatewaySettings → Bool) : Option OptionState :=
  match optionStartsWith what argval with
  | some value => (parse o.settings value).map fun s => ⟨s, true, allow s⟩
  | none => some o

/-- `parse_gateway_options` for one element: the settings and `allowHttpOpts` after it. -/
def gatewayOption (s : GatewaySettings) (allowHttpOpts : Bool) (argval : CodeUnits) :
    Option (GatewaySettings × Bool) := do
  let no : GatewaySettings → Bool := fun _ => false
  let o : OptionState := ⟨s, false, allowHttpOpts⟩
  let o ← o.tryOption argval "g:" GatewaySettings.parseGatewayHostOption no
  let o ← o.tryOption argval "u:" GatewaySettings.parseGatewayUserOption no
  let o ← o.tryOption argval "d:" GatewaySettings.parseGatewayDomainOption no
  let o ← o.tryOption argval "p:" GatewaySettings.parseGatewayPasswordOption no
  let o ← o.tryOption argval "type:" GatewaySettings.parseGatewayTypeOption
    GatewaySettings.httpTransport
  let o ← o.tryOption argval "access-token:"
    (fun s value => some { s with accessToken := some value }) no
  let o ← o.tryOption argval "bearer:"
    (fun s value => some { s with httpExtAuthBearer := some value }) no
  let o ← o.tryOption argval "url:"
    (fun s value => some ({ s with url := some value }.setGatewayUsageMethod 1)) no
  let o ← o.tryOption argval "usage-method:" GatewaySettings.parseGatewayUsageOption no
  let o ← o.tryOption argval "timeout:"
    (fun s value => (valueToInt value 1 600000).map fun n =>
      { s with responseTimeout := n.toNat }) no
  if o.allowHttpOpts && optionEquals "no-websockets" argval then
    some ({ o.settings with httpUseWebsockets := false }, o.allowHttpOpts)
  else if o.allowHttpOpts && optionEquals "extauth-sspi-ntlm" argval then
    some ({ o.settings with httpExtAuthSspiNtlm := true }, o.allowHttpOpts)
  else if o.validOption then some (o.settings, o.allowHttpOpts)
  else none

/-- The loop over the elements. -/
def gatewayLoop (s : GatewaySettings) (es : List CodeUnits) : Option GatewaySettings :=
  (es.foldlM (fun p e => gatewayOption p.1 p.2 (unescape e)) (s, false)).map Prod.fst

/-- `parse_gateway_options`; `none` when it fails. -/
def parseGatewayOptions (s : GatewaySettings) (value : Option CodeUnits) :
    Option GatewaySettings :=
  match commandLineParseCommaSeparatedValues value with
  | none => some s
  | some es => if es = [] then some s else gatewayLoop { s with enabled := true } es

/-! ## Which option it is -/

section Options

variable {what what' : String} {e v : CodeUnits} {s s' : GatewaySettings} {b b' : Bool}

theorem optionStartsWith_eq_some :
    optionStartsWith what e = some v ↔
      ∃ start, e = start ++ v ∧ start.map toLower = (lit what).map toLower := by
  rw [optionStartsWith]
  constructor
  · intro h
    obtain ⟨hstart, heq⟩ := Option.ite_none_right_eq_some.1 h
    cases heq
    exact ⟨_, (take_append_drop _ _).symm, hstart⟩
  · rintro ⟨start, rfl, hstart⟩
    have hlength : start.length = (lit what).length := by
      simpa using congrArg List.length hstart
    rw [← hlength, take_left, drop_left, if_pos hstart]

theorem OptionState.tryOption_none {o : OptionState}
    {parse : GatewaySettings → CodeUnits → Option GatewaySettings}
    {allow : GatewaySettings → Bool} (h : optionStartsWith what e = none) :
    o.tryOption e what parse allow = some o := by
  rw [OptionState.tryOption, h]

theorem OptionState.tryOption_some {o : OptionState}
    {parse : GatewaySettings → CodeUnits → Option GatewaySettings}
    {allow : GatewaySettings → Bool} (h : optionStartsWith what e = some v) :
    o.tryOption e what parse allow =
      (parse o.settings v).map fun s => ⟨s, true, allow s⟩ := by
  rw [OptionState.tryOption, h]

theorem toLower_eq_colon {u : UInt16} : toLower u = 0x3A ↔ u = 0x3A := by
  rw [toLower]
  by_cases hupper : (0x41 ≤ u && u ≤ 0x5A) = true
  · rw [if_pos hupper]
    constructor
    · intro h
      have hu : u = 0x1A := by
        calc u = u + 0x20 - 0x20 := by rw [UInt16.add_sub_cancel]
          _ = 0x1A := by rw [h]; rfl
      rw [hu] at hupper
      exact absurd hupper (by decide)
    · rintro rfl
      exact absurd hupper (by decide)
  · rw [if_neg hupper]

theorem optionStartsWith_letter {c : UInt16} (hwhat : (lit what).map toLower = [c, 0x3A]) :
    optionStartsWith what e = some v ↔ ∃ k, toLower k = c ∧ e = k :: 0x3A :: v := by
  rw [optionStartsWith_eq_some, hwhat]
  constructor
  · rintro ⟨start, rfl, hstart⟩
    obtain ⟨k, start, rfl, hk, hstart⟩ := map_eq_cons_iff.1 hstart
    obtain ⟨colon, start, rfl, hcolon, hstart⟩ := map_eq_cons_iff.1 hstart
    rw [map_eq_nil_iff.1 hstart, toLower_eq_colon.1 hcolon]
    exact ⟨k, hk, rfl⟩
  · rintro ⟨k, hk, rfl⟩
    exact ⟨[k, 0x3A], rfl, by rw [← hk]; rfl⟩

theorem optionStartsWith_long {k : UInt16} (hlength : 2 ≤ (lit what).length)
    (hcolon : ((lit what).map toLower)[1]? ≠ some 0x3A) :
    optionStartsWith what (k :: 0x3A :: v) = none := by
  cases hother : optionStartsWith what (k :: 0x3A :: v) with
  | none => rfl
  | some v' =>
    obtain ⟨start, heq, hstart⟩ := optionStartsWith_eq_some.1 hother
    rw [← hstart] at hcolon
    have hstartLength : start.length = (lit what).length := by
      simpa using congrArg List.length hstart
    have hat : start[1]? = some 0x3A := by
      have happend : (start ++ v')[1]? = start[1]? :=
        getElem?_append_left (by omega)
      rw [← happend, ← heq]
      rfl
    rw [getElem?_map, hat] at hcolon
    exact absurd rfl hcolon

end Options

/-! ## One option -/

/-- What `gatewayOption` does with an option of one letter. -/
def letterOption (s : GatewaySettings) (key : UInt16) (value : CodeUnits) :
    Option GatewaySettings :=
  if key = 0x67 then s.parseGatewayHostOption value
  else if key = 0x75 then s.parseGatewayUserOption value
  else if key = 0x64 then s.parseGatewayDomainOption value
  else if key = 0x70 then s.parseGatewayPasswordOption value
  else none

section Step

variable {what : String} {e v : CodeUnits} {k : UInt16} {s s' : GatewaySettings} {b b' : Bool}

theorem optionStartsWith_letter_eq {c : UInt16} (hwhat : (lit what).map toLower = [c, 0x3A]) :
    optionStartsWith what (k :: 0x3A :: v) = if toLower k = c then some v else none := by
  by_cases hk : toLower k = c
  · rw [if_pos hk]
    exact (optionStartsWith_letter hwhat).2 ⟨k, hk, rfl⟩
  · rw [if_neg hk]
    cases hother : optionStartsWith what (k :: 0x3A :: v) with
    | none => rfl
    | some v' =>
      obtain ⟨k', hk', heq⟩ := (optionStartsWith_letter hwhat).1 hother
      obtain ⟨rfl, -⟩ := List.cons.inj heq
      exact absurd hk' hk

/-- An option of one letter is no word. -/
theorem optionEquals_long (hwhat : ((lit what).map toLower)[1]? ≠ some 0x3A) :
    optionEquals what (k :: 0x3A :: v) = false := by
  rw [optionEquals, decide_eq_false_iff_not]
  intro heq
  rw [← heq] at hwhat
  exact hwhat rfl

/-- **An option of one letter is that one alone.** -/
theorem gatewayOption_letter :
    gatewayOption s b (k :: 0x3A :: v) = (letterOption s (toLower k) v).map (·, false) := by
  -- the four letters, and the words that have none
  have hg := @optionStartsWith_letter_eq "g:" v k 0x67 rfl
  have hu := @optionStartsWith_letter_eq "u:" v k 0x75 rfl
  have hd := @optionStartsWith_letter_eq "d:" v k 0x64 rfl
  have hp := @optionStartsWith_letter_eq "p:" v k 0x70 rfl
  have htype := @optionStartsWith_long "type:" v k (by decide) (by decide)
  have htoken := @optionStartsWith_long "access-token:" v k (by decide) (by decide)
  have hbearer := @optionStartsWith_long "bearer:" v k (by decide) (by decide)
  have hurl := @optionStartsWith_long "url:" v k (by decide) (by decide)
  have husage := @optionStartsWith_long "usage-method:" v k (by decide) (by decide)
  have htimeout := @optionStartsWith_long "timeout:" v k (by decide) (by decide)
  have hsockets := @optionEquals_long "no-websockets" v k (by decide)
  have hntlm := @optionEquals_long "extauth-sspi-ntlm" v k (by decide)
  simp only [gatewayOption, OptionState.tryOption, hg, hu, hd, hp, htype, htoken, hbearer, hurl,
    husage, htimeout, hsockets, hntlm, letterOption, Bool.and_false, Bool.false_eq_true, if_false]
  by_cases hkg : toLower k = 0x67
  · rw [hkg]
    cases hparse : s.parseGatewayHostOption v <;> simp [hparse]
  · by_cases hku : toLower k = 0x75
    · rw [hku]
      cases hparse : s.parseGatewayUserOption v <;> simp [hparse]
    · by_cases hkd : toLower k = 0x64
      · rw [hkd]
        cases hparse : s.parseGatewayDomainOption v <;> simp [hparse]
      · by_cases hkp : toLower k = 0x70
        · rw [hkp]
          cases hparse : s.parseGatewayPasswordOption v <;> simp [hparse]
        · simp [hkg, hku, hkd, hkp]

/-- The user, the domain and the password. -/
def GatewaySettings.credentials (s : GatewaySettings) :
    Option CodeUnits × Option CodeUnits × Option CodeUnits :=
  (s.username, s.domain, s.password)

theorem setGatewayUsageMethod_credentials (method : Nat) :
    (s.setGatewayUsageMethod method).credentials = s.credentials := by
  rcases method with _ | _ | _ | _ | _ | method <;> rfl

theorem OptionState.tryOption_credentials {o o' : OptionState}
    {parse : GatewaySettings → CodeUnits → Option GatewaySettings}
    {allow : GatewaySettings → Bool} (h : o.tryOption e what parse allow = some o')
    (hparse : ∀ s v s', parse s v = some s' → s'.credentials = s.credentials) :
    o'.settings.credentials = o.settings.credentials := by
  cases hwhat : optionStartsWith what e with
  | none =>
    rw [tryOption_none hwhat] at h
    cases h
    rfl
  | some v =>
    rw [tryOption_some hwhat] at h
    obtain ⟨s, hs, rfl⟩ := Option.map_eq_some_iff.1 h
    exact hparse _ _ _ hs

theorem parseGatewayHostOption_credentials (h : s.parseGatewayHostOption v = some s') :
    s'.credentials = s.credentials := by
  obtain ⟨p, -, rfl⟩ := Option.map_eq_some_iff.1 h
  exact setGatewayUsageMethod_credentials 1

theorem parseGatewayTypeOption_credentials (h : s.parseGatewayTypeOption v = some s') :
    s'.credentials = s.credentials := by
  rw [GatewaySettings.parseGatewayTypeOption] at h
  repeat' split at h
  all_goals first | exact (Option.some.inj h) ▸ rfl | cases h

theorem parseGatewayUsageOption_credentials (h : s.parseGatewayUsageOption v = some s') :
    s'.credentials = s.credentials := by
  have hmethod : ∃ method, s.setGatewayUsageMethod method = s' := by
    rw [GatewaySettings.parseGatewayUsageOption] at h
    by_cases hnone : optionEquals "none" v = true
    · rw [if_pos hnone] at h
      exact ⟨_, Option.some.inj h⟩
    rw [if_neg hnone] at h
    by_cases hdirect : optionEquals "direct" v = true
    · rw [if_pos hdirect] at h
      exact ⟨_, Option.some.inj h⟩
    rw [if_neg hdirect] at h
    by_cases hdetect : optionEquals "detect" v = true
    · rw [if_pos hdetect] at h
      exact ⟨_, Option.some.inj h⟩
    rw [if_neg hdetect] at h
    by_cases hdefault : optionEquals "default" v = true
    · rw [if_pos hdefault] at h
      exact ⟨_, Option.some.inj h⟩
    rw [if_neg hdefault] at h
    obtain ⟨n, -, hn⟩ := Option.map_eq_some_iff.1 h
    exact ⟨_, hn⟩
  obtain ⟨method, rfl⟩ := hmethod
  exact setGatewayUsageMethod_credentials method

/-- The options with longer names do not touch the credentials. -/
theorem gatewayOption_other (h : gatewayOption s b e = some (s', b'))
    (huser : optionStartsWith "u:" e = none) (hdomain : optionStartsWith "d:" e = none)
    (hpassword : optionStartsWith "p:" e = none) : s'.credentials = s.credentials := by
  rw [gatewayOption] at h
  obtain ⟨og, hog, h⟩ := Option.bind_eq_some_iff.1 h
  obtain ⟨ou, hou, h⟩ := Option.bind_eq_some_iff.1 h
  obtain ⟨od, hod, h⟩ := Option.bind_eq_some_iff.1 h
  obtain ⟨op, hop, h⟩ := Option.bind_eq_some_iff.1 h
  obtain ⟨otype, htype, h⟩ := Option.bind_eq_some_iff.1 h
  obtain ⟨otoken, htoken, h⟩ := Option.bind_eq_some_iff.1 h
  obtain ⟨obearer, hbearer, h⟩ := Option.bind_eq_some_iff.1 h
  obtain ⟨ourl, hurl, h⟩ := Option.bind_eq_some_iff.1 h
  obtain ⟨ousage, husage, h⟩ := Option.bind_eq_some_iff.1 h
  obtain ⟨o, ho, hlast⟩ := Option.bind_eq_some_iff.1 h
  rw [OptionState.tryOption_none huser] at hou
  rw [OptionState.tryOption_none hdomain] at hod
  rw [OptionState.tryOption_none hpassword] at hop
  cases hou
  cases hod
  cases hop
  have hsame : s'.credentials = o.settings.credentials := by
    split at hlast
    · cases hlast
      rfl
    · split at hlast
      · cases hlast
        rfl
      · split at hlast
        · cases hlast
          rfl
        · cases hlast
  calc s'.credentials
      = o.settings.credentials := hsame
    _ = ousage.settings.credentials := by
        refine OptionState.tryOption_credentials ho fun s v s' hs => ?_
        obtain ⟨n, -, rfl⟩ := Option.map_eq_some_iff.1 hs
        rfl
    _ = ourl.settings.credentials :=
        OptionState.tryOption_credentials husage fun _ _ _ => parseGatewayUsageOption_credentials
    _ = obearer.settings.credentials := by
        refine OptionState.tryOption_credentials hurl fun s v s' hs => ?_
        cases hs
        exact setGatewayUsageMethod_credentials 1
    _ = otoken.settings.credentials := by
        refine OptionState.tryOption_credentials hbearer fun s v s' hs => ?_
        cases hs
        rfl
    _ = otype.settings.credentials := by
        refine OptionState.tryOption_credentials htoken fun s v s' hs => ?_
        cases hs
        rfl
    _ = og.settings.credentials :=
        OptionState.tryOption_credentials htype fun _ _ _ => parseGatewayTypeOption_credentials
    _ = s.credentials :=
        OptionState.tryOption_credentials hog fun _ _ _ => parseGatewayHostOption_credentials

/-- **One option sets what its letter says, or leaves the credentials.** -/
theorem gatewayOption_cases (h : gatewayOption s b e = some (s', b')) :
    (∃ k v, e = k :: 0x3A :: v ∧ letterOption s (toLower k) v = some s') ∨
      s'.credentials = s.credentials := by
  by_cases hletter : ∃ k v, e = k :: 0x3A :: v
  · obtain ⟨k, v, rfl⟩ := hletter
    rw [gatewayOption_letter] at h
    obtain ⟨s'', hs'', heq⟩ := Option.map_eq_some_iff.1 h
    obtain ⟨rfl, -⟩ := Prod.mk.inj heq
    exact Or.inl ⟨k, v, rfl, hs''⟩
  · have hnone : ∀ {what : String} {c : UInt16}, (lit what).map toLower = [c, 0x3A] →
        optionStartsWith what e = none := by
      intro what c hwhat
      cases hstart : optionStartsWith what e with
      | none => rfl
      | some v =>
        obtain ⟨k, -, heq⟩ := (optionStartsWith_letter hwhat).1 hstart
        exact absurd ⟨k, v, heq⟩ hletter
    right
    exact gatewayOption_other h (hnone (c := 0x75) rfl) (hnone (c := 0x64) rfl)
      (hnone (c := 0x70) rfl)

end Step

/-! ## The host -/

/-- A host name: each of the parsers takes its characters for themselves. -/
def IsHostName (host : CodeUnits) : Prop := ∀ u ∈ host, IsPlain u ∧ u ≠ 0x3A

instance (host : CodeUnits) : Decidable (IsHostName host) :=
  inferInstanceAs (Decidable (∀ u ∈ host, IsPlain u ∧ u ≠ 0x3A))

/-- The option of the host. -/
def hostText (g : XyGateway) : CodeUnits :=
  0x67 :: 0x3A :: (g.host ++ if g.port ≠ 443 then 0x3A :: decimalInt g.port else [])

section Host

variable {host v : CodeUnits} {n : Nat} {g : XyGateway} {s s' : GatewaySettings}

theorem baseDigit_digitUnit {d : Nat} (h : d < 10) :
    baseDigit (digitUnit d) = some d ∧ IsPlain (digitUnit d) ∧ digitUnit d ≠ 0x3A ∧
      (digitUnit d = 0x30 → d = 0) ∧ digitUnit d ≠ 0x2D ∧ digitUnit d ≠ 0x2B ∧
      (digitUnit d = 0x20 || (0x09 ≤ digitUnit d && digitUnit d ≤ 0x0D)) = false := by
  revert d
  decide

theorem valueToInt_decimal {lo : Int} (hlo : lo ≤ n) (hpos : 0 < n) (hport : n ≤ 65535) :
    valueToInt (decimal n) lo 65535 = some (n : Int) := by
  have hdigits := decimal_digits n
  have hvalue : Numeral.value 10 (Numeral.digits 10 n) = n := Numeral.value_digits 10 n
  have htext : strtoi64 (decimal n) = some (n : Int) := by
    cases hds : Numeral.digits 10 n with
    | nil => exact absurd hds (Numeral.digits_ne_nil 10 n)
    | cons d ds =>
      rw [hds] at hdigits hvalue
      obtain ⟨-, -, -, hzero, hminus, hplus, hspace⟩ :=
        baseDigit_digitUnit (hdigits d mem_cons_self)
      have hd : d ≠ 0 := Numeral.head_digits_ne_zero (by omega) hds
      have hread : (((d :: ds).map digitUnit).map baseDigit).takeWhile
          (fun o => o.any (· < 10)) = (d :: ds).map some := by
        have hmap : ((d :: ds).map digitUnit).map baseDigit = (d :: ds).map some := by
          rw [map_map]
          exact map_congr_left fun d' hd' => (baseDigit_digitUnit (hdigits d' hd')).1
        rw [hmap, takeWhile_eq_self_iff]
        intro o ho
        obtain ⟨d', hd', rfl⟩ := mem_map.1 ho
        exact decide_eq_true (hdigits d' hd')
      have hbase : detectBase ((d :: ds).map digitUnit) = (10, (d :: ds).map digitUnit) := by
        rw [detectBase, if_neg]
        intro heq
        exact hd (hzero (Option.some.inj heq))
      have hstart : (decimal n).dropWhile (fun c => c = 0x20 || (0x09 ≤ c && c ≤ 0x0D)) =
          (d :: ds).map digitUnit := by
        rw [decimal, hds, map_cons]
        exact dropWhile_cons_of_neg (by rw [hspace]; exact Bool.false_ne_true)
      have hsign : ((d :: ds).map digitUnit).head? = some (digitUnit d) := rfl
      have hdash : ¬ some (digitUnit d) = some 0x2D := fun heq => hminus (Option.some.inj heq)
      have hadd : ¬ some (digitUnit d) = some 0x2B := fun heq => hplus (Option.some.inj heq)
      rw [strtoi64]
      simp only [hstart, hsign, hdash, hadd, decide_false, Bool.or_self, Bool.false_eq_true,
        if_false, hbase, hread]
      have hreduce : ((d :: ds).map some).reduceOption = d :: ds := by
        exact (filterMap_map ..).trans filterMap_some
      rw [hreduce, hvalue]
      exact if_pos ⟨by omega, by omega⟩
  rw [valueToInt, htext]
  exact Option.filter_some_pos (decide_eq_true ⟨by omega, by omega⟩)

theorem parseHostname_name (h : IsHostName host) : parseHostname host = some (host, none) := by
  have hnone : lastIndexOf 0x3A host = none := by
    rw [lastIndexOf, Option.map_eq_none_iff, idxOf?_eq_none_iff, mem_reverse]
    intro hmem
    exact (h _ hmem).2 rfl
  rw [parseHostname, hnone]

theorem parseHostname_port (hpos : 0 < n) (hport : n ≤ 65535) :
    parseHostname (host ++ 0x3A :: decimal n) = some (host, some n) := by
  have hcolon : 0x3A ∉ decimal n := by
    intro hmem
    obtain ⟨d, hd, heq⟩ := mem_map_digitUnit (decimal_digits n) hmem
    obtain ⟨-, -, hne, -⟩ := baseDigit_digitUnit hd
    exact hne heq
  have hdrop : (host ++ 0x3A :: decimal n).drop (host.length + 1) = decimal n := by simp
  rw [parseHostname, lastIndexOf_append_cons hcolon]
  dsimp only
  rw [hdrop, valueToInt_decimal (by omega) hpos hport, Option.map_some, take_left]
  rfl

end Host

/-! ## The fields -/

/-- The options of the fields that are given, in their order. -/
def fieldsOf (user domain password : Option CodeUnits) : List (UInt16 × CodeUnits) :=
  (user.map (0x75, ·)).toList ++ (domain.map (0x64, ·)).toList ++
    (password.map (0x70, ·)).toList

/-- The fields of the argument, each with its letter. -/
def XyGateway.fields (g : XyGateway) : List (UInt16 × CodeUnits) :=
  fieldsOf (notBlank g.username) (notBlank g.domain) (notBlank g.password)

/-- A field in the argument. -/
def optionText (f : UInt16 × CodeUnits) : CodeUnits := f.1 :: 0x3A :: f.2

/-- The texts of some options, with commas in between. -/
def joined (fs : List (UInt16 × CodeUnits)) : CodeUnits := [0x2C].intercalate (fs.map optionText)

/-- The settings have the values of `g`: a domain in front of the user stands unless there
is a domain of its own. -/
structure XyGateway.Arrived (g : XyGateway) (s : GatewaySettings) : Prop where
  hostname : s.hostname = some g.host
  port : (s.port : Int) = g.port
  username : s.username = (notBlank g.username).map fun user => (parseUsername user).1
  domain : s.domain =
    (notBlank g.domain).orElse fun _ => (notBlank g.username).bind fun user =>
      (parseUsername user).2
  password : s.password = notBlank g.password

/-- What the client hands over for `g` is split and interpreted to the values of `g`. -/
def XyGateway.Survives (g : XyGateway) : Prop :=
  ∃ s, parseGatewayOptions .new (some (gatewayArg g)) = some s ∧ g.Arrived s

/-- Nothing in the fields is taken for anything else: there is no backslash, no comma or
quote in a field that another one follows, and in the last one the commas stand behind a
quote and the first pass finds its end. -/
structure CleanFields (fs : List (UInt16 × CodeUnits)) : Prop where
  backslash : ∀ f ∈ fs, 0x5C ∉ f.2
  plain : ∀ f ∈ fs.dropLast, ∀ u ∈ f.2, IsPlain u
  last : ∀ f, fs.getLast? = some f →
    QuotedCommas f.2 ∧ getElementCount false (optionText f) ≠ none

section Fields

variable {user domain password : Option CodeUnits} {f f' : UInt16 × CodeUnits}
  {fs : List (UInt16 × CodeUnits)} {g : XyGateway}

theorem mem_fieldsOf :
    f ∈ fieldsOf user domain password ↔
      (f.1 = 0x75 ∧ user = some f.2) ∨ (f.1 = 0x64 ∧ domain = some f.2) ∨
        (f.1 = 0x70 ∧ password = some f.2) := by
  obtain ⟨key, text⟩ := f
  simp only [fieldsOf, mem_append, Option.mem_toList, Option.map_eq_some_iff,
    Prod.mk.injEq, or_assoc]
  grind

theorem fieldsOf_keys : ((fieldsOf user domain password).map Prod.fst).Nodup := by
  cases user <;> cases domain <;> cases password <;> simp [fieldsOf]

theorem fieldsOf_key (h : f ∈ fieldsOf user domain password) :
    IsPlain f.1 ∧ toLower f.1 = f.1 ∧ f.1 ≠ 0x67 := by
  rcases mem_fieldsOf.1 h with ⟨hkey, -⟩ | ⟨hkey, -⟩ | ⟨hkey, -⟩ <;> rw [hkey] <;> decide

theorem joined_cons_cons :
    joined (f :: f' :: fs) = optionText f ++ 0x2C :: joined (f' :: fs) := by
  rw [joined, map_cons, map_cons, intercalate_cons_cons, append_assoc]
  rfl

theorem joined_singleton : joined [f] = optionText f := intercalate_singleton

theorem joined_cons (f : UInt16 × CodeUnits) (fs : List (UInt16 × CodeUnits)) :
    ∃ str, joined (f :: fs) = f.1 :: str := by
  cases fs with
  | nil => exact ⟨_, joined_singleton⟩
  | cons f' fs => exact ⟨_, joined_cons_cons⟩

theorem joined_ne_nil : joined (f :: fs) ≠ [] := by
  obtain ⟨str, hstr⟩ := joined_cons f fs
  rw [hstr]
  exact cons_ne_nil f.1 str

theorem cleanFields_nil : CleanFields [] := by
  refine ⟨fun f hf => absurd hf not_mem_nil, fun f hf => absurd hf not_mem_nil, ?_⟩
  intro f hf
  cases hf

theorem cleanFields_singleton :
    CleanFields [f] ↔
      0x5C ∉ f.2 ∧ QuotedCommas f.2 ∧ getElementCount false (optionText f) ≠ none := by
  constructor
  · rintro ⟨hbackslash, -, hlast⟩
    exact ⟨hbackslash f mem_cons_self, hlast f rfl⟩
  · rintro ⟨hbackslash, hlast⟩
    refine ⟨fun f' hf' => ?_, fun f' hf' => absurd hf' not_mem_nil, fun f' hf' => ?_⟩
    · rw [mem_singleton.1 hf']
      exact hbackslash
    · rw [← Option.some.inj hf']
      exact hlast

theorem cleanFields_cons_cons :
    CleanFields (f :: f' :: fs) ↔ (∀ u ∈ f.2, IsPlain u) ∧ CleanFields (f' :: fs) := by
  constructor
  · rintro ⟨hbackslash, hplain, hlast⟩
    refine ⟨hplain f mem_cons_self, fun f'' hf => ?_, fun f'' hf => ?_, fun f'' hf => ?_⟩
    · exact hbackslash f'' (mem_cons_of_mem f hf)
    · exact hplain f'' (mem_cons_of_mem f hf)
    · exact hlast f'' hf
  · rintro ⟨hhead, hbackslash, hplain, hlast⟩
    refine ⟨fun f'' hf => ?_, fun f'' hf => ?_, fun f'' hf => hlast f'' hf⟩
    · rcases mem_cons.1 hf with rfl | hf
      · exact fun hmem => (hhead _ hmem).1 rfl
      · exact hbackslash f'' hf
    · rcases mem_cons.1 hf with rfl | hf
      · exact hhead
      · exact hplain f'' hf

theorem gatewayArg_eq (g : XyGateway) :
    gatewayArg g = [0x2C].intercalate (hostText g :: g.fields.map optionText) := by
  simp only [gatewayArg, XyGateway.fields, hostText]
  cases notBlank g.username <;> cases notBlank g.domain <;> cases notBlank g.password <;>
    simp [fieldsOf, optionText, lit]

end Fields

/-! ## What is split -/

section Split

variable {f f' : UInt16 × CodeUnits} {fs : List (UInt16 × CodeUnits)} {g : XyGateway} {n : Nat}

theorem plain_optionText (hkey : IsPlain f.1) (h : ∀ u ∈ f.2, IsPlain u) :
    ∀ u ∈ optionText f, IsPlain u := by
  intro u hu
  rcases mem_cons.1 hu with rfl | hu
  · exact hkey
  · rcases mem_cons.1 hu with rfl | hu
    · decide
    · exact h u hu

theorem quotedCommas_cons_colon {s : CodeUnits} :
    QuotedCommas (0x3A :: s) ↔ QuotedCommas s := by
  constructor
  · rintro h a b rfl
    obtain ⟨u, hu, hquote⟩ := h (0x3A :: a) b rfl
    rcases mem_cons.1 hu with rfl | hu
    · exact absurd rfl hquote
    · exact ⟨u, hu, hquote⟩
  · intro h a b heq
    cases a with
    | nil => cases heq
    | cons c a =>
      obtain ⟨rfl, rfl⟩ := List.cons.inj heq
      obtain ⟨u, hu, hquote⟩ := h a b rfl
      exact ⟨u, mem_cons_of_mem _ hu, hquote⟩

/-- **Clean fields are split into their options**, the last one several times. -/
theorem elements_joined (hkeys : ∀ f ∈ fs, IsPlain f.1) (hclean : CleanFields fs)
    (hne : fs ≠ []) :
    ∃ n m last, getElementCount false (joined fs) = some n ∧ fs.getLast? = some last ∧
      elements false n (joined fs) =
        some ((fs ++ replicate m last).map optionText) := by
  induction fs with
  | nil => exact absurd rfl hne
  | cons f fs ih =>
    have hkey := hkeys f mem_cons_self
    cases fs with
    | nil =>
      obtain ⟨hescape, hcommas, hcount⟩ := cleanFields_singleton.1 hclean
      have hbackslash : 0x5C ∉ (0x3A :: f.2 : CodeUnits) := by
        intro hmem
        rcases mem_cons.1 hmem with heq | hmem
        · cases heq
        · exact hescape hmem
      have hnone : nextComma false 0 false false (0x3A :: f.2) = none :=
        nextComma_none hbackslash (quotedCommas_cons_colon.2 hcommas)
      obtain ⟨n, hn⟩ := Option.ne_none_iff_exists'.1 hcount
      obtain ⟨m, rfl⟩ := Nat.exists_eq_succ_of_ne_zero
        (getElementCount_pos (cons_ne_nil _ _) hn).ne'
      refine ⟨m + 1, m, f, ?_, rfl, ?_⟩
      · rw [joined_singleton]
        exact hn
      · rw [joined_singleton, optionText, elements_last hkey hnone, map_append,
          map_replicate, replicate_succ]
        rfl
    | cons f' fs =>
      obtain ⟨hplain, hclean'⟩ := cleanFields_cons_cons.1 hclean
      have htext := plain_optionText hkey hplain
      obtain ⟨n, m, last, hcount, hlast, helements⟩ :=
        ih (fun f'' hf => hkeys f'' (mem_cons_of_mem f hf)) hclean'
          (cons_ne_nil _ _)
      refine ⟨n + 1, m, last, ?_, ?_, ?_⟩
      · rw [joined_cons_cons, optionText, getElementCount_plain htext joined_ne_nil, hcount]
        rfl
      · rw [getLast?_cons_cons]
        exact hlast
      · rw [joined_cons_cons, optionText, elements_plain htext, helements]
        rfl

theorem plain_hostText (hhost : IsHostName g.host) (hport : 0 < g.port) :
    ∀ u ∈ hostText g, IsPlain u := by
  intro u hu
  rcases mem_cons.1 hu with rfl | hu
  · decide
  rcases mem_cons.1 hu with rfl | hu
  · decide
  rcases mem_append.1 hu with hu | hu
  · exact (hhost u hu).1
  · split at hu
    · rcases mem_cons.1 hu with rfl | hu
      · decide
      · rw [decimalInt, if_neg (by omega)] at hu
        obtain ⟨d, hd, rfl⟩ := mem_map_digitUnit (decimal_digits _) hu
        exact (baseDigit_digitUnit hd).2.1
    · exact absurd hu not_mem_nil

/-- **The option of the host is split off.** -/
theorem split_gatewayArg (hhost : IsHostName g.host) (hport : 0 < g.port) :
    commandLineParseCommaSeparatedValues (some (gatewayArg g)) =
      if g.fields = [] then some [hostText g]
      else (getElementCount false (joined g.fields)).bind fun n =>
        (elements false n (joined g.fields)).map (hostText g :: ·) := by
  have hplain := plain_hostText hhost hport
  have hlist : unquoteList (gatewayArg g) = some (gatewayArg g, false) := by
    rw [gatewayArg_eq]
    cases g.fields <;> rfl
  have hparse : commandLineParseCommaSeparatedValues (some (gatewayArg g)) =
      (getElementCount false (gatewayArg g)).bind fun count =>
        if count = 0 then none else elements false count (gatewayArg g) := by
    rw [commandLineParseCommaSeparatedValues, commandLineParseCommaSeparatedValuesEx,
      Option.getD_some, hlist]
    simp
  rw [hparse, gatewayArg_eq]
  cases hfields : g.fields with
  | nil =>
    have hcount : getElementCount false (hostText g) = some 1 := by
      rw [getElementCount, hostText, if_neg (cons_ne_nil _ _), foldlM_countStep_plain hplain]
      rfl
    have hnone : nextComma false 0 false false (hostText g).tail = none := by
      refine nextComma_none ?_ ?_
      · exact fun hmem => (hplain _ (mem_of_mem_tail hmem)).1 rfl
      · rintro a b hab
        have hcomma : 0x2C ∈ (hostText g).tail := by
          rw [hab]
          exact mem_append_right a mem_cons_self
        exact absurd rfl (hplain _ (mem_of_mem_tail hcomma)).2.1
    rw [map_nil, intercalate_singleton, hcount, if_pos rfl, Option.bind_some, if_neg one_ne_zero]
    exact elements_last (hplain _ mem_cons_self) hnone
  | cons f fs =>
    rw [if_neg (cons_ne_nil f fs)]
    have harg : [0x2C].intercalate (hostText g :: (f :: fs).map optionText) =
        hostText g ++ 0x2C :: joined (f :: fs) := by
      rw [map_cons, intercalate_cons_cons, append_assoc]
      rfl
    rw [harg, hostText, getElementCount_plain hplain joined_ne_nil]
    cases getElementCount false (joined (f :: fs)) with
    | none => rfl
    | some n =>
      rw [Option.map_some, Option.bind_some, if_neg n.succ_ne_zero, elements_plain hplain]
      rfl

end Split

/-! ## What is interpreted -/

section Unescape

variable {e : CodeUnits} {escaped : Bool}

theorem unescape_eq_self (h : 0x5C ∉ e) : unescape e = e := by
  induction e with
  | nil => rfl
  | cons u e ih =>
    have hu : ¬ (u = 0x5C && !false) = true := by
      rw [Bool.not_false, Bool.and_true, decide_eq_true_eq]
      exact fun heq => h (heq ▸ mem_cons_self)
    have hrest : unescapeFrom false e = e := ih fun hmem => h (mem_cons_of_mem u hmem)
    rw [unescape, unescapeFrom, if_neg hu, hrest]

theorem length_unescapeFrom : (unescapeFrom escaped e).length ≤ e.length := by
  induction e generalizing escaped with
  | nil => exact Nat.le_refl 0
  | cons u e ih =>
    rw [unescapeFrom, length_cons]
    split
    · exact Nat.le_succ_of_le ih
    · exact Nat.succ_le_succ ih

/-- Each backslash that is left had another one in front of it. -/
theorem count_unescapeFrom :
    2 * (unescapeFrom escaped e).count 0x5C ≤ e.count 0x5C + if escaped then 1 else 0 := by
  induction e generalizing escaped with
  | nil => exact Nat.zero_le _
  | cons u e ih =>
    have hrest : ∀ b, 2 * (unescapeFrom b e).count 0x5C ≤
        e.count 0x5C + if b then 1 else 0 := fun b => ih
    have hfalse := hrest false
    have htrue := hrest true
    rw [unescapeFrom, count_cons]
    by_cases hu : u = 0x5C
    · cases escaped <;> simp [hu] at hfalse htrue ⊢ <;> omega
    · cases escaped <;> simp [hu] at hfalse htrue ⊢ <;> omega

end Unescape

section Loop

variable {f : UInt16 × CodeUnits} {fs : List (UInt16 × CodeUnits)} {g : XyGateway}
  {s s' : GatewaySettings} {b : Bool} {es : List CodeUnits}

/-- The loop over the elements, one by one. -/
theorem gatewayLoop_letter {k : UInt16} {v : CodeUnits} {e : CodeUnits}
    (he : unescape e = k :: 0x3A :: v) :
    gatewayLoop s (e :: es) =
      (letterOption s (toLower k) v).bind fun s => gatewayLoop s es := by
  rw [gatewayLoop, foldlM_cons, he, gatewayOption_letter]
  cases letterOption s (toLower k) v with
  | none => rfl
  | some s' => rfl

/-- Fields without backslashes are interpreted as they are. -/
theorem gatewayLoop_fields (hkeys : ∀ f ∈ fs, IsPlain f.1 ∧ toLower f.1 = f.1)
    (hbackslash : ∀ f ∈ fs, 0x5C ∉ f.2) :
    gatewayLoop s (fs.map optionText) = fs.foldlM (fun s f => letterOption s f.1 f.2) s := by
  induction fs generalizing s with
  | nil => rfl
  | cons f fs ih =>
    obtain ⟨hplain, hlower⟩ := hkeys f mem_cons_self
    have hself : unescape (optionText f) = f.1 :: 0x3A :: f.2 := by
      refine unescape_eq_self fun hmem => ?_
      rcases mem_cons.1 hmem with heq | hmem
      · exact hplain.1 heq.symm
      · rcases mem_cons.1 hmem with heq | hmem
        · cases heq
        · exact hbackslash f mem_cons_self hmem
    rw [map_cons, gatewayLoop_letter hself, hlower, foldlM_cons]
    refine congrArg _ (funext fun s => ?_)
    exact ih (fun f' hf => hkeys f' (mem_cons_of_mem f hf))
      fun f' hf => hbackslash f' (mem_cons_of_mem f hf)

/-- A field that is interpreted again changes nothing. -/
theorem letterOption_again (hkey : f.1 ≠ 0x67) (h : letterOption s f.1 f.2 = some s') :
    letterOption s' f.1 f.2 = some s' := by
  rw [letterOption, if_neg hkey] at h ⊢
  split at h
  · rw [if_pos ‹_›]
    cases h
    rfl
  · rw [if_neg ‹_›]
    split at h
    · rw [if_pos ‹_›]
      cases h
      rfl
    · rw [if_neg ‹_›]
      split at h
      · rw [if_pos ‹_›]
        cases h
        rfl
      · cases h

theorem foldlM_letterOption_again {m : Nat} {last : UInt16 × CodeUnits}
    (hlast : fs.getLast? = some last) (hkey : last.1 ≠ 0x67)
    (h : fs.foldlM (fun s f => letterOption s f.1 f.2) s = some s') :
    (fs ++ replicate m last).foldlM (fun s f => letterOption s f.1 f.2) s = some s' := by
  obtain ⟨init, rfl⟩ := getLast?_eq_some_iff.1 hlast
  rw [foldlM_append, h, Option.bind_eq_bind, Option.bind_some]
  rw [foldlM_append] at h
  obtain ⟨s₀, -, h⟩ := Option.bind_eq_some_iff.1 h
  rw [foldlM_cons] at h
  obtain ⟨s₁, hs₁, h⟩ := Option.bind_eq_some_iff.1 h
  cases h
  have hagain := letterOption_again hkey hs₁
  induction m with
  | zero => rfl
  | succ m ih =>
    rw [replicate_succ, foldlM_cons, hagain]
    exact ih

theorem letterOption_host (hhost : IsHostName g.host) (hmin : 1 ≤ g.port)
    (hmax : g.port ≤ 65535) (hdefault : s.port = 443) :
    ∃ s', letterOption s 0x67
        (g.host ++ if g.port ≠ 443 then 0x3A :: decimalInt g.port else []) = some s' ∧
      s'.hostname = some g.host ∧ (s'.port : Int) = g.port ∧
      s'.credentials = s.credentials := by
  have hset : ∀ {port : Option Nat} {text : CodeUnits},
      parseHostname text = some (g.host, port) → ((port.getD s.port : Nat) : Int) = g.port →
      ∃ s', letterOption s 0x67 text = some s' ∧ s'.hostname = some g.host ∧
        (s'.port : Int) = g.port ∧ s'.credentials = s.credentials := by
    intro port text hparse hport
    have hletter : letterOption s 0x67 text = some
        ({ s with
            hostname := some g.host
            port := port.getD s.port
            useSameCredentials := true }.setGatewayUsageMethod 1) := by
      rw [letterOption, if_pos rfl, GatewaySettings.parseGatewayHostOption, hparse]
      rfl
    exact ⟨_, hletter, rfl, hport, rfl⟩
  by_cases hport : g.port = 443
  · rw [if_neg (not_not_intro hport), append_nil]
    refine hset (parseHostname_name hhost) ?_
    rw [Option.getD_none, hdefault, hport]
    rfl
  · have hnat : decimalInt g.port = decimal g.port.toNat := if_neg (by omega)
    rw [if_pos hport, hnat]
    refine hset (parseHostname_port (by omega) (by omega)) ?_
    rw [Option.getD_some]
    omega

theorem foldlM_fieldsOf (user domain password : Option CodeUnits)
    (hcredentials : s.credentials = (none, none, none)) :
    ∃ s', (fieldsOf user domain password).foldlM (fun s f => letterOption s f.1 f.2) s =
        some s' ∧ s'.hostname = s.hostname ∧ s'.port = s.port ∧
      s'.username = user.map (fun text => (parseUsername text).1) ∧
      s'.domain = domain.orElse (fun _ => user.bind fun text => (parseUsername text).2) ∧
      s'.password = password := by
  obtain ⟨hu, hd, hp⟩ : s.username = none ∧ s.domain = none ∧ s.password = none := by
    simpa [GatewaySettings.credentials] using hcredentials
  cases user <;> cases domain <;> cases password <;>
    simp [fieldsOf, letterOption, GatewaySettings.parseGatewayUserOption,
      GatewaySettings.parseGatewayDomainOption, GatewaySettings.parseGatewayPasswordOption, hu,
      hd, hp]

end Loop

/-! ## Clean fields survive -/

section Clean

variable {g : XyGateway} {s : GatewaySettings}

/-- The first element is the one of the host. -/
theorem gatewayLoop_host (hhost : IsHostName g.host) (hmin : 1 ≤ g.port)
    (hmax : g.port ≤ 65535) :
    ∃ s₁ : GatewaySettings, s₁.hostname = some g.host ∧ (s₁.port : Int) = g.port ∧
      s₁.credentials = (none, none, none) ∧
      ∀ es, gatewayLoop { GatewaySettings.new with enabled := true } (hostText g :: es) =
        gatewayLoop s₁ es := by
  have hself : unescape (hostText g) = hostText g :=
    unescape_eq_self fun hmem => (plain_hostText hhost hmin _ hmem).1 rfl
  obtain ⟨s₁, hs₁, hname, hport, hcredentials⟩ :=
    letterOption_host (s := { GatewaySettings.new with enabled := true }) hhost hmin hmax rfl
  refine ⟨s₁, hname, hport, hcredentials, fun es => ?_⟩
  rw [gatewayLoop_letter (hself.trans rfl)]
  show (letterOption _ 0x67 _).bind _ = _
  rw [hs₁, Option.bind_some]

/-- **Clean fields arrive.** -/
theorem survives_of_clean (hhost : IsHostName g.host) (hmin : 1 ≤ g.port)
    (hmax : g.port ≤ 65535) (hclean : CleanFields g.fields) : g.Survives := by
  obtain ⟨s₁, hname, hport, hcredentials, hloop⟩ := gatewayLoop_host hhost hmin hmax
  obtain ⟨s, hs, hsname, hsport, huser, hdomain, hpassword⟩ :=
    foldlM_fieldsOf (notBlank g.username) (notBlank g.domain) (notBlank g.password)
      hcredentials
  have harrived : g.Arrived s :=
    ⟨hsname.trans hname, by rw [hsport]; exact hport, huser, hdomain, hpassword⟩
  have hkeys : ∀ f ∈ g.fields, IsPlain f.1 ∧ toLower f.1 = f.1 := fun f hf =>
    ⟨(fieldsOf_key hf).1, (fieldsOf_key hf).2.1⟩
  refine ⟨s, ?_, harrived⟩
  rw [parseGatewayOptions, split_gatewayArg hhost hmin]
  by_cases hfields : g.fields = []
  · have hnil : s₁ = s := by
      change g.fields.foldlM _ s₁ = some s at hs
      rw [hfields] at hs
      exact Option.some.inj hs
    rw [if_pos hfields]
    show (if [hostText g] = [] then _ else _) = _
    rw [if_neg (cons_ne_nil _ _), hloop, hnil]
    rfl
  · obtain ⟨n, m, last, hcount, hlast, helements⟩ :=
      elements_joined (fun f hf => (hkeys f hf).1) hclean hfields
    rw [if_neg hfields, hcount, Option.bind_some, helements, Option.map_some]
    show (if hostText g :: _ = [] then _ else _) = _
    rw [if_neg (cons_ne_nil _ _), hloop]
    have hmem : ∀ f ∈ g.fields ++ replicate m last, f ∈ g.fields := by
      intro f hf
      rcases mem_append.1 hf with hf | hf
      · exact hf
      · rw [eq_of_mem_replicate hf]
        exact mem_of_getLast? hlast
    rw [gatewayLoop_fields (fun f hf => hkeys f (hmem f hf)) fun f hf =>
      hclean.backslash f (hmem f hf)]
    exact foldlM_letterOption_again hlast (fieldsOf_key (mem_of_getLast? hlast)).2.2 hs

end Clean

/-! ## Where the credentials come from -/

/-- An element is read as an option: the letter may be in upper case. -/
def Reads (e : CodeUnits) (f : UInt16 × CodeUnits) : Prop :=
  ∃ k, toLower k = f.1 ∧ unescape e = k :: 0x3A :: f.2

/-- Each option is read from some element. -/
def Found (es : List CodeUnits) (fs : List (UInt16 × CodeUnits)) : Prop :=
  ∀ f ∈ fs, ∃ e ∈ es, Reads e f

/-- What the settings have was read from some element; a domain may be from the one that
the user is from. -/
structure ReadFrom (es : List CodeUnits) (s : GatewaySettings) : Prop where
  username : ∀ u, s.username = some u →
    ∃ v, (∃ e ∈ es, Reads e (0x75, v)) ∧ (parseUsername v).1 = u
  domain : ∀ d, s.domain = some d → (∃ e ∈ es, Reads e (0x64, d)) ∨
    ∃ v, (∃ e ∈ es, Reads e (0x75, v)) ∧ s.username = some (parseUsername v).1 ∧
      (parseUsername v).2 = some d
  password : ∀ p, s.password = some p → ∃ e ∈ es, Reads e (0x70, p)

section ReadFrom

variable {e : CodeUnits} {es ps : List CodeUnits} {s s' : GatewaySettings} {b b' : Bool}
  {f f' : UInt16 × CodeUnits} {fs : List (UInt16 × CodeUnits)}

theorem Reads.unique (h : Reads e f) (h' : Reads e f') : f = f' := by
  obtain ⟨k, hk, he⟩ := h
  obtain ⟨k', hk', he'⟩ := h'
  rw [he] at he'
  obtain ⟨rfl, htail⟩ := List.cons.inj he'
  exact Prod.ext (hk.symm.trans hk') (List.cons.inj htail).2

theorem ReadFrom.credentials (h : ReadFrom es s) (hs : s'.credentials = s.credentials) :
    ReadFrom es s' := by
  obtain ⟨hu, hd, hp⟩ : s'.username = s.username ∧ s'.domain = s.domain ∧
      s'.password = s.password := by
    simpa [GatewaySettings.credentials] using hs
  refine ⟨fun u => ?_, fun d => ?_, fun p => ?_⟩
  · rw [hu]
    exact h.username u
  · rw [hu, hd]
    exact h.domain d
  · rw [hp]
    exact h.password p

/-- One element keeps it. -/
theorem ReadFrom.step (h : ReadFrom es s) (he : e ∈ es)
    (hs : gatewayOption s b (unescape e) = some (s', b')) : ReadFrom es s' := by
  rcases gatewayOption_cases hs with ⟨k, v, htext, hletter⟩ | hsame
  · rw [letterOption] at hletter
    by_cases hg : toLower k = 0x67
    · rw [if_pos hg] at hletter
      exact h.credentials (parseGatewayHostOption_credentials hletter)
    rw [if_neg hg] at hletter
    by_cases hu : toLower k = 0x75
    · rw [if_pos hu] at hletter
      cases hletter
      have hread : ∃ e ∈ es, Reads e (0x75, v) := ⟨e, he, k, hu, htext⟩
      refine ⟨fun u husername => ?_, fun d hdomain => ?_, h.password⟩
      · exact ⟨v, hread, Option.some.inj husername⟩
      · exact Or.inr ⟨v, hread, rfl, hdomain⟩
    rw [if_neg hu] at hletter
    by_cases hd : toLower k = 0x64
    · rw [if_pos hd] at hletter
      cases hletter
      refine ⟨h.username, fun d hdomain => ?_, h.password⟩
      cases hdomain
      exact Or.inl ⟨e, he, k, hd, htext⟩
    rw [if_neg hd] at hletter
    by_cases hp : toLower k = 0x70
    · rw [if_pos hp] at hletter
      cases hletter
      refine ⟨h.username, h.domain, fun p hpassword => ?_⟩
      cases hpassword
      exact ⟨e, he, k, hp, htext⟩
    · rw [if_neg hp] at hletter
      cases hletter
  · exact h.credentials hsame

/-- **All credentials come from the elements.** -/
theorem readFrom_gatewayLoop (hcredentials : s.credentials = (none, none, none))
    (h : gatewayLoop s es = some s') : ReadFrom es s' := by
  have hrun : ∀ {l : List CodeUnits} {s : GatewaySettings} {b : Bool}
      {p : GatewaySettings × Bool}, l ⊆ es → ReadFrom es s →
      l.foldlM (fun p e => gatewayOption p.1 p.2 (unescape e)) (s, b) = some p →
      ReadFrom es p.1 := by
    intro l
    induction l with
    | nil =>
      intro s b p _ hread hp
      cases hp
      exact hread
    | cons e l ih =>
      intro s b p hsub hread hp
      rw [foldlM_cons] at hp
      obtain ⟨⟨s₁, b₁⟩, hs₁, hp⟩ := Option.bind_eq_some_iff.1 hp
      obtain ⟨he, hl⟩ := cons_subset.1 hsub
      exact ih hl (hread.step he hs₁) hp
  obtain ⟨hu, hd, hp⟩ : s.username = none ∧ s.domain = none ∧ s.password = none := by
    simpa [GatewaySettings.credentials] using hcredentials
  have hstart : ReadFrom es s := by
    refine ⟨fun u husername => ?_, fun d hdomain => ?_, fun p hpassword => ?_⟩
    · rw [hu] at husername
      cases husername
    · rw [hd] at hdomain
      cases hdomain
    · rw [hp] at hpassword
      cases hpassword
  obtain ⟨p, hp, rfl⟩ := Option.map_eq_some_iff.1 h
  exact hrun (List.Subset.refl es) hstart hp

theorem ReadFrom.mono (h : ReadFrom es s) (hsub : es ⊆ ps) : ReadFrom ps s := by
  have hmono : ∀ {f : UInt16 × CodeUnits}, (∃ e ∈ es, Reads e f) → ∃ e ∈ ps, Reads e f :=
    fun ⟨e, he, hread⟩ => ⟨e, hsub he, hread⟩
  refine ⟨fun u hu => ?_, fun d hd => ?_, fun p hp => hmono (h.password p hp)⟩
  · obtain ⟨v, hv, hname⟩ := h.username u hu
    exact ⟨v, hmono hv, hname⟩
  · rcases h.domain d hd with hd | ⟨v, hv, hname⟩
    · exact Or.inl (hmono hd)
    · exact Or.inr ⟨v, hmono hv, hname⟩

end ReadFrom

/-! ## What is found is not longer -/

section Found

variable {e : CodeUnits} {l ps : List CodeUnits} {f : UInt16 × CodeUnits}
  {fs : List (UInt16 × CodeUnits)} {n : Nat} {str : CodeUnits} {w : CodeUnits → Nat} {c : Nat}

/-- Different options are found in different elements. -/
theorem Found.exists_elements (h : Found ps fs) (hnodup : fs.Nodup) :
    ∃ element : UInt16 × CodeUnits → CodeUnits, (∀ f ∈ fs, Reads (element f) f) ∧
      (fs.map element).Nodup ∧ fs.map element ⊆ ps := by
  choose! element hmem hread using h
  refine ⟨element, hread, ?_, ?_⟩
  · rw [nodup_map_iff_inj_on hnodup]
    intro f hf f' hf' heq
    have hsame := hread f' hf'
    rw [← heq] at hsame
    exact (hread f hf).unique hsame
  · intro e he
    obtain ⟨f, hf, rfl⟩ := mem_map.1 he
    exact hmem f hf

/-- An option weighs no more than the element that it is found in. -/
theorem weight_optionText_le {element : UInt16 × CodeUnits → CodeUnits}
    (hread : ∀ f ∈ fs, Reads (element f) f)
    (hw : ∀ {e f}, f ∈ fs → Reads e f → c * w (optionText f) ≤ w e) :
    c * weight w (fs.map optionText) ≤ weight w (fs.map element) := by
  induction fs with
  | nil => exact Nat.le_refl 0
  | cons f fs ih =>
    have hhead := hw mem_cons_self (hread f mem_cons_self)
    have hrest := ih (fun f' hf => hread f' (mem_cons_of_mem f hf))
      fun hf => hw (mem_cons_of_mem f hf)
    rw [map_cons, map_cons, weight_cons, weight_cons, Nat.mul_add]
    omega

/-- What is found in the parts weighs no more than they do. -/
theorem Found.weight_le (h : Found ps fs) (hnodup : fs.Nodup)
    (hw : ∀ {e f}, f ∈ fs → Reads e f → c * w (optionText f) ≤ w e) :
    c * weight w (fs.map optionText) ≤ weight w ps := by
  obtain ⟨element, hread, hnodup', hsub⟩ := h.exists_elements hnodup
  exact (weight_optionText_le hread hw).trans (weight_le_of_subset hnodup' hsub)

theorem Reads.length_le (h : Reads e f) :
    1 * lengthWithComma (optionText f) ≤ lengthWithComma e := by
  obtain ⟨k, -, he⟩ := h
  have hlength : (unescape e).length ≤ e.length := length_unescapeFrom
  rw [he] at hlength
  rw [Nat.one_mul]
  exact Nat.succ_le_succ hlength

theorem Reads.count_le (hkey : IsPlain f.1) (h : Reads e f) :
    2 * (optionText f).count 0x5C ≤ e.count 0x5C := by
  obtain ⟨k, hk, he⟩ := h
  have hcount : 2 * (unescape e).count 0x5C ≤ e.count 0x5C + 0 := count_unescapeFrom
  have hcolon : ¬ (0x3A : UInt16) = 0x5C := by decide
  rw [he, count_cons, count_cons] at hcount
  rw [optionText, count_cons, count_cons]
  have hfirst : ((f.1 == 0x5C) : Bool) = false := beq_eq_false_iff_ne.2 hkey.1
  rw [hfirst]
  simp only [Bool.false_eq_true, if_false]
  omega

/-- The options that are found are no longer than the list. -/
theorem Found.length_le (h : Found ps fs) (hnodup : fs.Nodup) (hne : fs ≠ [])
    (hparts : parts n str = some ps) : (joined fs).length ≤ str.length := by
  have hweight : 1 * weight lengthWithComma (fs.map optionText) ≤ weight lengthWithComma ps :=
    h.weight_le hnodup fun _ hread => hread.length_le
  have hjoined : (joined fs).length + 1 = weight lengthWithComma (fs.map optionText) :=
    length_intercalate (mt map_eq_nil_iff.1 hne)
  have hle := lengths_parts_le hparts
  omega

/-- The options that are found have half of the backslashes of the list at most. -/
theorem Found.count_le (h : Found ps fs) (hnodup : fs.Nodup) (hkeys : ∀ f ∈ fs, IsPlain f.1)
    (hparts : parts n str = some ps) :
    2 * (joined fs).count 0x5C ≤ str.count 0x5C := by
  rw [joined, count_intercalate]
  exact (h.weight_le hnodup fun hf hread => hread.count_le (hkeys _ hf)).trans
    (backslashes_parts_le hparts)

end Found

/-! ## What arrives was handed over -/

section Arrived

variable {v d : CodeUnits} {ps : List CodeUnits} {n : Nat} {s : GatewaySettings}
  {user domain password user' domain' password' : Option CodeUnits}

theorem parseUsername_plain (h : 0x5C ∉ v) : parseUsername v = (v, none) := by
  rw [parseUsername, idxOf?_eq_none_iff.2 h]

/-- A user with a domain in front of it. -/
theorem parseUsername_domain (h : (parseUsername v).2 = some d) :
    v = d ++ 0x5C :: (parseUsername v).1 := by
  rw [parseUsername] at h ⊢
  cases hi : v.idxOf? 0x5C with
  | none =>
    rw [hi] at h
    cases h
  | some i =>
    rw [hi] at h
    cases h
    obtain ⟨hlt, hat, -⟩ := idxOf?_eq_some_iff.1 hi
    calc v = v.take i ++ v.drop i := (take_append_drop i v).symm
      _ = v.take i ++ 0x5C :: v.drop (i + 1) := by rw [drop_eq_getElem_cons hlt, hat]

theorem count_parseUsername (h : (parseUsername v).2 = some d) :
    v.count 0x5C = d.count 0x5C + (parseUsername v).1.count 0x5C + 1 := by
  have hcount := congrArg (List.count 0x5C) (parseUsername_domain h)
  rw [count_append, count_cons_self, ← Nat.add_assoc] at hcount
  exact hcount

theorem length_parseUsername (h : (parseUsername v).2 = some d) :
    v.length = d.length + (parseUsername v).1.length + 1 := by
  have hlength := congrArg List.length (parseUsername_domain h)
  rw [length_append, length_cons, ← Nat.add_assoc] at hlength
  exact hlength

theorem parseUsername_backslash (h : 0x5C ∈ v) : ∃ d, (parseUsername v).2 = some d := by
  cases hdomain : (parseUsername v).2 with
  | some d => exact ⟨d, rfl⟩
  | none =>
    rw [parseUsername] at hdomain
    cases hi : v.idxOf? 0x5C with
    | none => exact absurd h (idxOf?_eq_none_iff.1 hi)
    | some i =>
      rw [hi] at hdomain
      cases hdomain

theorem parseUsername_sublist : (parseUsername v).1.Sublist v := by
  rw [parseUsername]
  split
  · exact drop_sublist _ v
  · exact List.Sublist.refl v

theorem found_fieldsOf (huser : ∀ v, user = some v → ∃ e ∈ ps, Reads e (0x75, v))
    (hdomain : ∀ v, domain = some v → ∃ e ∈ ps, Reads e (0x64, v))
    (hpassword : ∀ v, password = some v → ∃ e ∈ ps, Reads e (0x70, v)) :
    Found ps (fieldsOf user domain password) := by
  rintro ⟨key, text⟩ hf
  rcases mem_fieldsOf.1 hf with ⟨rfl, h⟩ | ⟨rfl, h⟩ | ⟨rfl, h⟩
  · exact huser text h
  · exact hdomain text h
  · exact hpassword text h

/-- The backslashes of a field. -/
def backslashes (field : Option CodeUnits) : Nat := (field.getD []).count 0x5C

/-- The length of the option of a field, with a comma. -/
def optionLength (field : Option CodeUnits) : Nat := field.elim 0 fun text => text.length + 3

theorem count_joined_fieldsOf :
    (joined (fieldsOf user domain password)).count 0x5C =
      backslashes user + backslashes domain + backslashes password := by
  rw [joined, count_intercalate]
  cases user <;> cases domain <;> cases password <;>
    simp [fieldsOf, optionText, weight, backslashes, Nat.add_assoc]

theorem length_joined_fieldsOf (hne : fieldsOf user domain password ≠ []) :
    (joined (fieldsOf user domain password)).length + 1 =
      optionLength user + optionLength domain + optionLength password := by
  rw [joined, length_intercalate (mt map_eq_nil_iff.1 hne)]
  cases user <;> cases domain <;> cases password <;>
    simp [fieldsOf, optionText, weight, lengthWithComma, optionLength, Nat.add_assoc]

section Bounds

variable (hparts : parts n (joined (fieldsOf user domain password)) = some ps)
  (hfound : Found ps (fieldsOf user' domain' password'))

include hparts hfound

theorem backslashes_found_le :
    2 * (backslashes user' + backslashes domain' + backslashes password') ≤
      backslashes user + backslashes domain + backslashes password := by
  rw [← count_joined_fieldsOf, ← count_joined_fieldsOf]
  exact hfound.count_le fieldsOf_keys.of_map (fun f hf => (fieldsOf_key hf).1) hparts

theorem optionLength_found_le (hne : fieldsOf user domain password ≠ [])
    (hne' : fieldsOf user' domain' password' ≠ []) :
    optionLength user' + optionLength domain' + optionLength password' ≤
      optionLength user + optionLength domain + optionLength password := by
  rw [← length_joined_fieldsOf hne, ← length_joined_fieldsOf hne']
  exact Nat.succ_le_succ (hfound.length_le fieldsOf_keys.of_map hne' hparts)

end Bounds

/-- A user without a domain in front of it is found as it is. -/
theorem found_fields_plain {t : CodeUnits} (hread : ReadFrom ps s)
    (hparts : parts n (joined (fieldsOf (some t) domain password)) = some ps)
    (ht : 0x5C ∉ t) (huser : s.username = some t) (hdomain : s.domain = domain)
    (hpassword : s.password = password) :
    Found ps (fieldsOf (some t) domain password) ∧
      (joined (fieldsOf (some t) domain password)).count 0x5C = 0 := by
  have hp : ∀ p, password = some p → ∃ e ∈ ps, Reads e (0x70, p) := by
    rintro p rfl
    exact hread.password p hpassword
  obtain ⟨v, hv, hvt⟩ := hread.username t huser
  have hzero : backslashes (some t) = 0 := count_eq_zero.2 ht
  have hd : ∀ d, domain = some d → ∃ e ∈ ps, Reads e (0x64, d) := by
    rintro d rfl
    rcases hread.domain d hdomain with hd | ⟨v', hv', hsame, hsplit⟩
    · exact hd
    · -- the domain would be in front of the user, with a backslash that came from nowhere
      have hfound : Found ps (fieldsOf (some v') none password) :=
        found_fieldsOf (fun w hw => Option.some.inj hw ▸ hv') (fun w hw => by cases hw) hp
      have hle := backslashes_found_le hparts hfound
      have hcount : backslashes (some v') = _ := count_parseUsername hsplit
      have hdcount : backslashes (some d) = d.count 0x5C := rfl
      omega
  have hfound : Found ps (fieldsOf (some v) domain password) :=
    found_fieldsOf (fun w hw => Option.some.inj hw ▸ hv) hd hp
  have hle := backslashes_found_le hparts hfound
  have hvzero : backslashes (some v) = 0 := by omega
  have hvplain : 0x5C ∉ v := count_eq_zero.1 hvzero
  rw [parseUsername_plain hvplain] at hvt
  have hvt' : v = t := hvt
  rw [hvt'] at hfound
  refine ⟨hfound, ?_⟩
  rw [count_joined_fieldsOf]
  omega

/-- A user with a domain in front of it does not arrive. -/
theorem not_arrived_domain {t d : CodeUnits} (hread : ReadFrom ps s)
    (hparts : parts n (joined (fieldsOf (some t) none password)) = some ps)
    (ht : (parseUsername t).2 = some d) (huser : s.username = some (parseUsername t).1)
    (hdomain : s.domain = some d) (hpassword : s.password = password) : False := by
  have hp : ∀ p, password = some p → ∃ e ∈ ps, Reads e (0x70, p) := by
    rintro p rfl
    exact hread.password p hpassword
  have hne : ∀ {text : CodeUnits} {o o' : Option CodeUnits}, fieldsOf (some text) o o' ≠ [] := by
    intro text o o'
    exact cons_ne_nil _ _
  rcases hread.domain d hdomain with hd | ⟨v, hv, hsame, hsplit⟩
  · -- an option of its own for the domain does not fit in
    obtain ⟨v, hv, hvt⟩ := hread.username _ huser
    have hfound : Found ps (fieldsOf (some v) (some d) password) :=
      found_fieldsOf (fun w hw => Option.some.inj hw ▸ hv) (fun w hw => Option.some.inj hw ▸ hd) hp
    have hle := optionLength_found_le hparts hfound hne hne
    have hlength := length_parseUsername ht
    have hvlength : (parseUsername t).1.length ≤ v.length := by
      rw [← hvt]
      exact parseUsername_sublist.length_le
    simp only [optionLength, Option.elim] at hle
    omega
  · -- nor are there backslashes to spare
    have htv : v = t :=
      calc v = d ++ 0x5C :: (parseUsername v).1 := parseUsername_domain hsplit
        _ = d ++ 0x5C :: (parseUsername t).1 := by
            rw [Option.some.inj (hsame.symm.trans huser)]
        _ = t := (parseUsername_domain ht).symm
    rw [htv] at hv
    have hfound : Found ps (fieldsOf (some t) none password) :=
      found_fieldsOf (fun w hw => Option.some.inj hw ▸ hv) (fun w hw => by cases hw) hp
    have hle := backslashes_found_le hparts hfound
    have hcount : backslashes (some t) = _ := count_parseUsername ht
    omega

/-- **The fields that arrive are found as they are, and have no backslash.** -/
theorem found_fields (hread : ReadFrom ps s)
    (hparts : parts n (joined (fieldsOf user domain password)) = some ps)
    (hback : (∀ text, user = some text → 0x5C ∉ text) ∨ domain = none)
    (huser : s.username = user.map fun text => (parseUsername text).1)
    (hdomain : s.domain =
      domain.orElse fun _ => user.bind fun text => (parseUsername text).2)
    (hpassword : s.password = password) :
    Found ps (fieldsOf user domain password) ∧
      (joined (fieldsOf user domain password)).count 0x5C = 0 := by
  cases user with
  | none =>
    have hd : ∀ d, domain = some d → ∃ e ∈ ps, Reads e (0x64, d) := by
      rintro d rfl
      rcases hread.domain d hdomain with hd | ⟨v, -, hsame, -⟩
      · exact hd
      · rw [huser] at hsame
        cases hsame
    have hp : ∀ p, password = some p → ∃ e ∈ ps, Reads e (0x70, p) := by
      rintro p rfl
      exact hread.password p hpassword
    have hfound : Found ps (fieldsOf none domain password) :=
      found_fieldsOf (fun w hw => by cases hw) hd hp
    have hle := backslashes_found_le hparts hfound
    refine ⟨hfound, ?_⟩
    rw [count_joined_fieldsOf]
    omega
  | some t =>
    by_cases ht : 0x5C ∈ t
    · obtain ⟨d, hd⟩ := parseUsername_backslash ht
      have hnone : domain = none := by
        rcases hback with hback | hnone
        · exact absurd ht (hback t rfl)
        · exact hnone
      rw [hnone] at hparts hdomain
      have hsplit : s.domain = some d := hdomain.trans hd
      exact (not_arrived_domain hread hparts hd huser hsplit hpassword).elim
    · rw [Option.map_some, parseUsername_plain ht] at huser
      rw [Option.bind_some, parseUsername_plain ht] at hdomain
      refine found_fields_plain hread hparts ht huser ?_ hpassword
      rw [hdomain]
      cases domain <;> rfl

end Arrived

/-! ## Fields that survive are clean -/

section Clean

variable {f : UInt16 × CodeUnits} {fs : List (UInt16 × CodeUnits)} {ps : List CodeUnits} {n : Nat}
  {g : XyGateway}

/-- An element without a backslash is read letter by letter. -/
theorem Reads.eq {e : CodeUnits} (hescape : 0x5C ∉ e) (h : Reads e f) :
    ∃ k, toLower k = f.1 ∧ e = k :: 0x3A :: f.2 := by
  obtain ⟨k, hk, he⟩ := h
  rw [unescape_eq_self hescape] at he
  exact ⟨k, hk, he⟩

/-- An element that starts with a letter in lower case is the option. -/
theorem Reads.eq_optionText {e : CodeUnits} {c : UInt16} (hescape : 0x5C ∉ e) (h : Reads e f)
    (hhead : e.head? = some c) (hlower : toLower c = c) : f.1 = c ∧ e = optionText f := by
  obtain ⟨k, hk, htext⟩ := h.eq hescape
  rw [htext] at hhead
  obtain rfl := Option.some.inj hhead
  have hkey : f.1 = k := hk.symm.trans hlower
  exact ⟨hkey, by rw [htext, optionText, hkey]⟩

/-- The elements of the fields are as long as the list, so there are no others. -/
theorem Found.perm (hfound : Found ps fs) (hnodup : fs.Nodup) (hne : fs ≠ [])
    (hparts : parts n (joined fs) = some ps) :
    ∃ element : UInt16 × CodeUnits → CodeUnits, (∀ f ∈ fs, Reads (element f) f) ∧
      (fs.map element).Perm ps := by
  obtain ⟨element, hread, hnodup', hsub⟩ := hfound.exists_elements hnodup
  refine ⟨element, hread, ?_⟩
  refine perm_of_weight (w := lengthWithComma) (fun e => Nat.succ_pos _) hnodup' hsub ?_
  have hjoined : (joined fs).length + 1 = weight lengthWithComma (fs.map optionText) :=
    length_intercalate (mt map_eq_nil_iff.1 hne)
  have hle := lengths_parts_le hparts
  have hle' := weight_optionText_le (c := 1) hread fun _ hread => hread.length_le
  omega

/-- **The first part is the option of the first field**, and plain unless it is the last. -/
theorem Found.first_part (hfound : Found ps (f :: fs)) (hplain : IsPlain f.1)
    (hlower : toLower f.1 = f.1) (hnodup : ((f :: fs).map Prod.fst).Nodup)
    (hescape : 0x5C ∉ joined (f :: fs)) (hparts : parts n (joined (f :: fs)) = some ps) :
    (fs = [] ∧ QuotedCommas f.2) ∨
      fs ≠ [] ∧ (∀ u ∈ f.2, IsPlain u) ∧
        ∃ m es, ps = optionText f :: es ∧ parts m (joined fs) = some es := by
  obtain ⟨element, hread, hperm⟩ := hfound.perm hnodup.of_map (cons_ne_nil f fs) hparts
  obtain ⟨str, hstr⟩ := joined_cons f fs
  cases ps with
  | nil => exact absurd hperm.eq_nil (cons_ne_nil _ _)
  | cons e es =>
    have he : 0x5C ∉ e := not_mem_parts hparts hescape mem_cons_self
    -- whose option it is, its first character says
    have hfirst : e.head? = some f.1 → e = optionText f := by
      intro hhead
      obtain ⟨f', hf', rfl⟩ := mem_map.1 (hperm.mem_iff.2 mem_cons_self)
      obtain ⟨hkey, htext⟩ := (hread f' hf').eq_optionText he hhead hlower
      rw [htext, inj_on_of_nodup_map hnodup hf' mem_cons_self hkey]
    cases n with
    | zero => cases hparts
    | succ n =>
      rw [hstr] at hparts
      rcases parts_cons hplain hparts he with ⟨hwhole, rfl, hcommas⟩ |
        ⟨after, hafter, hrest, heplain⟩
      · have hnil : fs = [] := by
          have hlength := hperm.length_eq
          rw [length_map, length_cons] at hlength
          exact eq_nil_of_length_eq_zero (Nat.succ.inj hlength)
        have hcolon : f.1 :: str = optionText f := by rw [← hstr, hnil, joined_singleton]
        rw [(List.cons.inj hcolon).2, quotedCommas_cons_colon] at hcommas
        exact Or.inl ⟨hnil, hcommas⟩
      · have hoption : e = optionText f := by
          refine hfirst ?_
          cases e with
          | nil => exact absurd (List.cons.inj hafter).1 hplain.2.1
          | cons c e => rw [(List.cons.inj hafter).1, head?_cons]
        rw [hoption, ← hstr] at hafter
        rw [hoption] at heplain
        cases fs with
        | nil =>
          have hlength := congrArg List.length hafter
          rw [joined_singleton, length_append, length_cons] at hlength
          omega
        | cons f' fs =>
          rw [joined_cons_cons] at hafter
          have htail : joined (f' :: fs) = after :=
            (List.cons.inj (append_cancel_left hafter)).2
          refine Or.inr ⟨cons_ne_nil f' fs, fun u hu => ?_, n, es, ?_, ?_⟩
          · exact heplain u (mem_cons_of_mem _ (mem_cons_of_mem _ hu))
          · rw [hoption]
          · rw [htail]
            exact hrest

/-- **Fields are clean when each of them is found.** -/
theorem clean_of_found (hkeys : ∀ f ∈ fs, IsPlain f.1 ∧ toLower f.1 = f.1)
    (hnodup : (fs.map Prod.fst).Nodup) (hescape : 0x5C ∉ joined fs)
    (hcount : getElementCount false (joined fs) ≠ none)
    (hparts : parts n (joined fs) = some ps) (hfound : Found ps fs) : CleanFields fs := by
  induction fs generalizing n ps with
  | nil => exact cleanFields_nil
  | cons f fs ih =>
    obtain ⟨hplain, hlower⟩ := hkeys f mem_cons_self
    rcases hfound.first_part hplain hlower hnodup hescape hparts with ⟨rfl, hcommas⟩ |
      ⟨hne, htext, m, es, rfl, hrest⟩
    · rw [joined_singleton] at hescape hcount
      refine cleanFields_singleton.2 ⟨?_, hcommas, hcount⟩
      exact fun hmem => hescape (mem_cons_of_mem _ (mem_cons_of_mem _ hmem))
    · obtain ⟨f', fs, rfl⟩ := exists_cons_of_ne_nil hne
      obtain ⟨hkey, hnodup'⟩ := nodup_cons.1 hnodup
      rw [joined_cons_cons] at hescape hcount
      rw [optionText, getElementCount_plain (plain_optionText hplain htext) joined_ne_nil]
        at hcount
      refine cleanFields_cons_cons.2 ⟨htext, ?_⟩
      refine ih (fun f'' hf'' => hkeys f'' (mem_cons_of_mem f hf'')) hnodup' ?_ ?_ hrest ?_
      · exact fun hmem => hescape (mem_append_right _ (mem_cons_of_mem _ hmem))
      · exact fun hnone => hcount (by rw [hnone]; rfl)
      · intro f'' hf''
        obtain ⟨e, he, hread⟩ := hfound f'' (mem_cons_of_mem f hf'')
        rcases mem_cons.1 he with rfl | he
        · -- the first part is read as the first field only
          have hoption : 0x5C ∉ optionText f :=
            fun hmem => hescape (mem_append_left _ hmem)
          obtain ⟨hkey', -⟩ := hread.eq_optionText hoption rfl hlower
          rw [← hkey'] at hkey
          exact absurd (mem_map_of_mem hf'') hkey
        · exact ⟨e, he, hread⟩

/-- **Fields that survive are clean**, unless the user has a domain in front of it and there
is another domain. -/
theorem clean_of_survives (hhost : IsHostName g.host) (hmin : 1 ≤ g.port)
    (hmax : g.port ≤ 65535)
    (hback : (∀ text, notBlank g.username = some text → 0x5C ∉ text) ∨ notBlank g.domain = none)
    (h : g.Survives) : CleanFields g.fields := by
  obtain ⟨s, hparse, harrived⟩ := h
  by_cases hne : g.fields = []
  · rw [hne]
    exact cleanFields_nil
  rw [parseGatewayOptions, split_gatewayArg hhost hmin, if_neg hne] at hparse
  have hfailed : s ≠ GatewaySettings.new := by
    rintro rfl
    cases harrived.hostname
  cases hcount : getElementCount false (joined g.fields) with
  | none =>
    rw [hcount] at hparse
    exact absurd (Option.some.inj hparse).symm hfailed
  | some n =>
    cases helements : elements false n (joined g.fields) with
    | none =>
      rw [hcount, Option.bind_some, helements] at hparse
      exact absurd (Option.some.inj hparse).symm hfailed
    | some es =>
      obtain ⟨s₁, -, -, hcredentials, hloop⟩ := gatewayLoop_host hhost hmin hmax
      rw [hcount, Option.bind_some, helements, Option.map_some] at hparse
      change (if hostText g :: es = [] then _ else _) = _ at hparse
      rw [if_neg (cons_ne_nil _ _), hloop] at hparse
      obtain ⟨ps, hparts, hmem⟩ := elements_parts helements
      have hread : ReadFrom ps s :=
        (readFrom_gatewayLoop hcredentials hparse).mono fun e he => (hmem e).1 he
      obtain ⟨hfound, hescape⟩ := found_fields hread hparts hback harrived.username
        harrived.domain harrived.password
      refine clean_of_found (fun f hf => ⟨(fieldsOf_key hf).1, (fieldsOf_key hf).2.1⟩)
        fieldsOf_keys (count_eq_zero.1 hescape) ?_ hparts hfound
      rw [hcount]
      exact Option.some_ne_none n

end Clean

/-- **When gateway credentials survive the argument string**: with clean fields they do, and
without them they do not, as long as there are not two domains. -/
theorem XyGateway.survives_iff_clean (g : XyGateway) (hhost : IsHostName g.host)
    (hmin : 1 ≤ g.port) (hmax : g.port ≤ 65535) :
    (CleanFields g.fields → g.Survives) ∧
      ((∀ text, notBlank g.username = some text → 0x5C ∉ text) ∨ notBlank g.domain = none →
        g.Survives → CleanFields g.fields) :=
  ⟨survives_of_clean hhost hmin hmax, clean_of_survives hhost hmin hmax⟩

/-- A gateway with all of its fields. -/
def sampleGateway : XyGateway where
  host := lit "gw.corp.id"
  port := 8443
  username := some (lit "kal")
  password := some (lit "a\"b,c\"")
  domain := some (lit "CORP")

theorem XyGateway.survives_iff_clean_sample : sampleGateway.Survives := by
  have hclean : CleanFields sampleGateway.fields := by
    refine ⟨by decide, by decide, fun f hf => ?_⟩
    have hlast : f = (0x70, lit "a\"b,c\"") := Option.some.inj (hf.symm.trans rfl)
    rw [hlast]
    exact ⟨quotedCommas_of_none (by decide) (by decide), by decide⟩
  exact (XyGateway.survives_iff_clean sampleGateway (by decide) (by decide) (by decide)).1 hclean

/-- A user with a domain in front of it does not arrive: the backslash is lost. -/
theorem XyGateway.not_survives_backslash :
    ¬ (XyGateway.mk (lit "gw.corp.id") 443 (some (lit "CORP\\kal")) none none).Survives := by
  rintro ⟨s, hs, harrived⟩
  have huser : (parseGatewayOptions .new (some (lit "g:gw.corp.id,u:CORP\\kal"))).map
      (·.username) = some (some (lit "CORPkal")) := by decide
  have harg : gatewayArg (XyGateway.mk (lit "gw.corp.id") 443 (some (lit "CORP\\kal")) none none) =
      lit "g:gw.corp.id,u:CORP\\kal" := by decide
  rw [harg] at hs
  rw [hs, Option.map_some, harrived.username] at huser
  exact absurd huser (by decide)
