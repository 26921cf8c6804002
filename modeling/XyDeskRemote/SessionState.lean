/-
# Session states, profiles and the failure taxonomy

The data the session manager of the Android client works on: the states of
`SessionState.kt`, the connection profile of `ConnectionProfile.kt`, the part of
`RdpOptions.kt` that the compatibility stages change, and the failure codes of
`RdpFailure.kt`.
-/
import Mathlib.Data.List.Infix

/-- A native session handle: the `long` that `LibFreeRDP.newInstance` returns. -/
abbrev Instance := ℕ

/-- `ConnectionProfile`: where to connect and as whom. -/
structure ConnectionProfile where
  host : String
  port : ℕ := 3389
  username : Option String := none
  password : Option String := none
  domain : Option String := none
  label : Option String := none
  key : Option String := none
  deriving DecidableEq, Repr, Inhabited

/-- `SessionState`: the one source of truth about a session. -/
inductive SessionState where
  | idle
  | connecting
  | authenticating
  | connected
  | disconnecting
  | disconnected (detail : Option String)
  | error (code message : String) (errorCode : ℕ) (connectionId : Instance)
  deriving DecidableEq, Repr, Inhabited

namespace SessionState

/-- The states that announce that something is still going to happen. -/
def Transitional : SessionState → Prop
  | connecting | authenticating | disconnecting => True
  | _ => False

instance (s : SessionState) : Decidable s.Transitional := by
  cases s <;> simp only [Transitional] <;> infer_instance

/-- The handshake is still running. -/
def Handshaking : SessionState → Prop
  | connecting | authenticating => True
  | _ => False

instance (s : SessionState) : Decidable s.Handshaking := by
  cases s <;> simp only [Handshaking] <;> infer_instance

end SessionState

/-! ## Native error texts -/

/-- `String.lowercase()`, as the list of its characters. -/
def lowercase (text : String) : List Char := text.toList.map Char.toLower

/-- `lower.contains(needle)` on a lowered text. -/
def containsText (lower : List Char) (needle : String) : Bool :=
  decide (needle.toList <:+: lower)

/-! ## The failure taxonomy -/

namespace RdpFailure

/-- `RdpFailure.codeFor`: the category of a failure.  The more specific texts
come first. -/
def codeFor (code message : String) : ℕ :=
  let m := lowercase message
  if code = "unreachable" then 0x01
  else if code = "connect_timeout" then 0x02
  else if code = "connect_exception" then 0x0A
  else if code = "connect_failed" then
    if containsText m "wrong password" || containsText m "password supplied" then 0x05
    else if containsText m "account locked" then 0x07
    else if containsText m "password" &&
        (containsText m "expired" || containsText m "must be changed") then 0x08
    else if containsText m "certificate" || containsText m "tls" || containsText m "ssl" then 0x04
    else if containsText m "dns" || containsText m "could not be resolved" ||
        containsText m "host name was not found" then 0x03
    else if containsText m "logon failed" || containsText m "logon failure" ||
        containsText m "authentication" then 0x06
    else if containsText m "server denied" then 0x09
    else 0x0B
  else 0x00

end RdpFailure

/-- `ERROR_UNREACHABLE`: the code of an error raised by a failed TCP probe. -/
def errorUnreachable : String := "unreachable"

/-! ## Session options -/

/-- The protocols for security. -/
inductive XySecurityProtocol where
  | auto | nla | tls | rdp
  deriving DecidableEq, Repr, Inhabited

/-- The fields of `RdpOptions` that a compatibility stage or the graphics fallback
replaces; the others are copied through unchanged. -/
structure RdpOptions where
  udpTransport : Bool := true
  h264 : Bool := true
  colorDepth : ℕ := 32
  securityProtocol : XySecurityProtocol := .auto
  tlsSecLevel : ℤ := -1
  deriving DecidableEq, Repr, Inhabited

namespace RdpOptions

/-- The `when (compatHandshakeStage)` of `sessionUri`. -/
def compat (resolved : RdpOptions) : ℕ → RdpOptions
  | 1 => { resolved with tlsSecLevel := 0, udpTransport := false, securityProtocol := .auto }
  | 2 => { resolved with
      tlsSecLevel := 0, udpTransport := false, securityProtocol := .tls, h264 := false }
  | _ => resolved

/-- The copy `sessionUri` makes when the graphics fallback is set for the device. -/
def withGraphicsFallback (base : RdpOptions) : RdpOptions :=
  { base with h264 := false, colorDepth := 16 }

end RdpOptions
