import Mnema.Models
import Mnema.Lib.PythonText

/-! The credentials of File Provider devices: pairing codes, refresh tokens, access tokens. -/

namespace Mnema

open PyText

/-- The seconds of `timedelta(minutes=n)`. -/
def minutes (n : Nat) : Time := n * 60

structure FileProviderPairingCode where
  id : String
  codeHash : Digest
  expiresAt : Time
  consumedAt : Option Time := none
  createdAt : Time
deriving DecidableEq, Repr

structure FileProviderDevice where
  id : String
  name : String
  refreshTokenHash : Digest
  refreshExpiresAt : Time
  lastUsedAt : Option Time := none
  revokedAt : Option Time := none
  createdAt : Time
deriving DecidableEq, Repr

structure AccessClaims where
  sub : String
  aud : String
  iat : Time
  exp : Time
  scope : String
  type : String
deriving DecidableEq, Repr

/-- A token with the key that signed it; `claims` is `none` where a required one is missing. -/
structure Jwt where
  key : String
  claims : Option AccessClaims
deriving DecidableEq, Repr

structure IssuedTokens where
  accessToken : Jwt
  refreshToken : String
  expiresIn : Nat
  deviceId : String
deriving DecidableEq, Repr

/-- The signing key, `_hash`, the values that `secrets` and `uuid4` draw one after another, and
`jwt.decode` with the options that `verify_access_token` gives it: key, audience and time. -/
structure Secrets where
  key : String
  hash : String → Digest
  draw : Nat → String
  decode : Jwt → String → String → Time → Option AccessClaims
  hash_injective : Function.Injective hash
  draw_injective : Function.Injective draw
  decode_claims : ∀ {token : Jwt} {audience : String} {now : Time} {claims : AccessClaims},
    decode token key audience now = some claims → token.claims = some claims

/-- The two tables, and how many values were drawn. -/
structure Auth where
  pairingCodes : Table FileProviderPairingCode String FileProviderPairingCode.id := .empty
  devices : Table FileProviderDevice String FileProviderDevice.id := .empty
  drawn : Nat := 0

/-- `device_name.strip()[:100] or "iPhone"`. -/
def storedName (deviceName : String) : String :=
  let name := stripped isSpace deviceName.toList
  if name = [] then "iPhone" else String.ofList (name.take 100)

namespace Auth

variable (s : Secrets)

/-- `done` is the time of the last reading of the clock. -/
def createPairingCode (now done : Time) (a : Auth) : String × Auth :=
  let code := s.draw a.drawn
  (code, { a with
    pairingCodes := a.pairingCodes.insert
      { id := s.draw (a.drawn + 1), codeHash := s.hash code, expiresAt := now + minutes 10,
        createdAt := done }
    drawn := a.drawn + 2 })

/-- `_access_token`. -/
def accessToken (deviceId : String) (now : Time) : Jwt :=
  ⟨s.key, some ⟨deviceId, "mnema-file-provider", now, now + minutes 15, "files:read files:upload",
    "access"⟩⟩

def exchangePairingCode (code deviceName : String) (now done : Time) (a : Auth) :
    Except PyError (IssuedTokens × Auth) :=
  match a.pairingCodes.first fun row => row.codeHash == s.hash code with
  | none => .error (.permission "pairing code is invalid or expired")
  | some pairing =>
    if pairing.consumedAt.isSome ∨ pairing.expiresAt ≤ now then
      .error (.permission "pairing code is invalid or expired")
    else
      let refresh := s.draw a.drawn
      let device : FileProviderDevice :=
        { id := s.draw (a.drawn + 1), name := storedName deviceName,
          refreshTokenHash := s.hash refresh, refreshExpiresAt := now + days 90, createdAt := done }
      .ok (⟨accessToken s device.id done, refresh, 900, device.id⟩,
        { pairingCodes := a.pairingCodes.put { pairing with consumedAt := some now }
          devices := a.devices.insert device
          drawn := a.drawn + 2 })

def rotateRefreshToken (refresh : String) (now done : Time) (a : Auth) :
    Except PyError (IssuedTokens × Auth) :=
  match a.devices.first fun row => row.refreshTokenHash == s.hash refresh with
  | none => .error (.permission "refresh token is invalid or expired")
  | some device =>
    if device.revokedAt.isSome ∨ device.refreshExpiresAt ≤ now then
      .error (.permission "refresh token is invalid or expired")
    else
      let replacement := s.draw a.drawn
      .ok (⟨accessToken s device.id done, replacement, 900, device.id⟩,
        { a with
          devices := a.devices.put { device with
            refreshTokenHash := s.hash replacement
            refreshExpiresAt := now + days 90
            lastUsedAt := some now }
          drawn := a.drawn + 1 })

def verifyAccessToken (token : Jwt) (now done : Time) (a : Auth) :
    Except PyError (FileProviderDevice × Auth) :=
  match s.decode token s.key "mnema-file-provider" now with
  | none => .error (.permission "access token is invalid")
  | some payload =>
    if payload.type ≠ "access" ∨ payload.scope ≠ "files:read files:upload" then
      .error (.permission "access token scope is invalid")
    else
      match a.devices.get payload.sub with
      | none => .error (.permission "device is revoked")
      | some device =>
        if device.revokedAt.isSome then .error (.permission "device is revoked")
        else
          let device := { device with lastUsedAt := some done }
          .ok (device, { a with devices := a.devices.put device })

def revokeDevice (deviceId : String) (now : Time) (a : Auth) : Bool × Auth :=
  match a.devices.get deviceId with
  | none => (false, a)
  | some device => (true, { a with devices := a.devices.put { device with revokedAt := some now } })

end Auth

/-! ### Histories -/

inductive AuthCall where
  | createPairingCode
  | exchangePairingCode (code deviceName : String)
  | rotateRefreshToken (refresh : String)
  | verifyAccessToken (token : Jwt)
  | revokeDevice (deviceId : String)
deriving DecidableEq, Repr

inductive AuthAnswer where
  | pairingCode (code : String)
  | tokens (issued : IssuedTokens)
  | device (device : FileProviderDevice)
  | revoked (found : Bool)
  | refused (error : PyError)
deriving DecidableEq, Repr

/-- A call in a session of its own, which an exception rolls back. -/
def AuthCall.perform (s : Secrets) (now done : Time) (a : Auth) : AuthCall → AuthAnswer × Auth
  | .createPairingCode =>
    let (code, a') := a.createPairingCode s now done
    (.pairingCode code, a')
  | .exchangePairingCode code deviceName =>
    match a.exchangePairingCode s code deviceName now done with
    | .ok (issued, a') => (.tokens issued, a')
    | .error e => (.refused e, a)
  | .rotateRefreshToken refresh =>
    match a.rotateRefreshToken s refresh now done with
    | .ok (issued, a') => (.tokens issued, a')
    | .error e => (.refused e, a)
  | .verifyAccessToken token =>
    match a.verifyAccessToken s token now done with
    | .ok (device, a') => (.device device, a')
    | .error e => (.refused e, a)
  | .revokeDevice deviceId =>
    let (found, a') := a.revokeDevice deviceId now
    (.revoked found, a')

structure AuthEvent where
  call : AuthCall
  now : Time
  answer : AuthAnswer

structure AuthWorld where
  auth : Auth
  now : Time
  history : List AuthEvent

def AuthWorld.answer (s : Secrets) (w : AuthWorld) (call : AuthCall) (now done : Time) : AuthAnswer :=
  (call.perform s now done w.auth).1

def AuthWorld.after (s : Secrets) (w : AuthWorld) (call : AuthCall) (now done : Time) : AuthWorld :=
  ⟨(call.perform s now done w.auth).2, done, w.history ++ [⟨call, now, w.answer s call now done⟩]⟩

/-- Any calls, one after another; a call begins at `now` and ends at `done`. -/
inductive AuthRun (s : Secrets) : AuthWorld → Prop where
  | start (now : Time) : AuthRun s ⟨{}, now, []⟩
  | call {w : AuthWorld} (h : AuthRun s w) (call : AuthCall) {now done : Time} (hnow : w.now ≤ now)
      (hdone : now ≤ done) : AuthRun s (w.after s call now done)

end Mnema
