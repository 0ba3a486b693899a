import Mnema.DeviceCredentials
import Mnema.Lib.Pool

/-! The client of a phone: the tasks of the app and of its File Provider extension share the tokens
in the keychain, and exchange them with the server over replies that may be lost. -/

namespace Mnema.Phone

/-- The accounts under which the keychain keeps its values. -/
inductive Account where
  | serverURL
  | accessToken
  | refreshToken
deriving DecidableEq, Repr

abbrev Account.Value : Account → Type
  | .serverURL => String
  | .accessToken => Jwt
  | .refreshToken => String

/-- What comes back for a call that hands out tokens; `failed` where nothing readable does. -/
inductive Reply where
  | tokens (issued : IssuedTokens)
  | status (code : Nat)
  | failed
deriving DecidableEq, Repr

inductive Op where
  | load (account : Account)
  | delete (account : Account)
  | add (account : Account) (value : account.Value)
  | pair (code deviceName : String)
  | refresh (token : String)
  | send (token : Option Jwt)

abbrev Op.Ans : Op → Type
  | .load account => Option account.Value
  | .delete _ => Bool
  | .add _ _ => Bool
  | .pair _ _ => Reply
  | .refresh _ => Reply
  | .send _ => Option Nat

inductive APIError where
  | notConfigured
  | invalidResponse
  | server (code : Nat)
  | noSuchItem
  | keychain
  | transport
deriving DecidableEq, Repr

abbrev Client := Prog Op Op.Ans APIError

/-! ### The client -/

def ask (o : Op) : Client o.Ans := Prog.op o

def load (account : Account) : Client (Option account.Value) := ask (.load account)

/-- `TokenStore.save`, which does not look at what the deletion says. -/
def save (account : Account) (value : account.Value) : Client Unit := do
  let _ ← ask (.delete account)
  let added ← ask (.add account value)
  if added then pure () else throw .keychain

/-- `TokenStore.remove`. -/
def remove (account : Account) : Client Unit := do
  let deleted ← ask (.delete account)
  if deleted then pure () else throw .keychain

def clearSession : Client Unit := do
  remove .accessToken
  remove .refreshToken

/-- `request`: the server has to be known; the token is sent if there is one. -/
def request : Client (Option Jwt) := do
  match ← load .serverURL with
  | none => throw .notConfigured
  | some _ => load .accessToken

def saveTokens (issued : IssuedTokens) : Client Unit := do
  save .accessToken issued.accessToken
  save .refreshToken issued.refreshToken

/-- What is done with the reply to a call that hands out tokens. -/
def received (reply : Reply) (keep : IssuedTokens → Client Unit) : Client Unit :=
  match reply with
  | .tokens issued => keep issued
  | .status code => throw (.server code)
  | .failed => throw .transport

def refreshAccessToken : Client Unit := do
  match ← load .refreshToken with
  | none => throw .notConfigured
  | some token => do
    let _ ← request
    let reply ← ask (.refresh token)
    received reply saveTokens

def pair (server code deviceName : String) : Client Unit := do
  let reply ← ask (.pair code deviceName)
  received reply fun issued => do
    save .serverURL server
    saveTokens issued

def send (token : Option Jwt) : Client Nat := do
  match ← ask (.send token) with
  | none => throw .transport
  | some code => pure code

/-- A request again, with the token that a refresh has stored. -/
def retried : Client Nat := do
  refreshAccessToken
  match ← load .accessToken with
  | none => throw (.server 401)
  | some token => send (some token)

/-- `response(for:)`. -/
def response (token : Option Jwt) : Client Nat := do
  let code ← send token
  if code = 401 then
    match ← load .refreshToken with
    | none => pure code
    | some _ => retried
  else pure code

/-- `data(for:as:)`, for the requests that answer with a document. -/
def data : Client Unit := do
  let token ← request
  let code ← response token
  if code = 404 then throw .noSuchItem
  else if 200 ≤ code ∧ code < 300 then pure () else throw (.server code)

/-- `download` refreshes without a look at the refresh token. -/
def retriedIfRefused (code : Nat) : Client Nat := if code = 401 then retried else pure code

def download : Client Unit := do
  let token ← request
  let code ← retriedIfRefused (← send token)
  if 200 ≤ code ∧ code < 300 then pure () else throw .invalidResponse

def delete : Client Unit := do
  let token ← request
  let code ← response token
  if code = 404 ∨ code = 204 then pure () else throw (.server code)

/-- What the app and the extension ask of the client. -/
inductive Call where
  | pair (server code deviceName : String)
  | data
  | download
  | delete
  | clearSession
deriving DecidableEq, Repr

def Call.client : Call → Client Unit
  | .pair server code deviceName => Phone.pair server code deviceName
  | .data => Phone.data
  | .download => Phone.download
  | .delete => Phone.delete
  | .clearSession => Phone.clearSession

/-! ### The phone and its server -/

/-- Beside the keychain: for each task the refresh token it read last and one it was given and has
not stored; the tokens whose replies were lost; and all that were ever stored. -/
structure State (ι : Type) where
  server : AuthWorld
  keychain : (account : Account) → Option account.Value := fun _ => none
  loaded : ι → Option String := fun _ => none
  unsaved : ι → Option String := fun _ => none
  lost : List String := []
  saved : List String := []
  rotations : List (String × String) := []

section System

variable {ι : Type} [DecidableEq ι] (secrets : Secrets)

namespace State

variable (s : State ι)

def put (account : Account) (value : Option account.Value) : State ι :=
  { s with keychain := Function.update s.keychain account value }

/-- A task reads an account. -/
def read (i : ι) : (account : Account) → State ι
  | .refreshToken => { s with loaded := Function.update s.loaded i (s.keychain .refreshToken) }
  | _ => s

/-- A task has stored what it was given. -/
def stored (i : ι) : (account : Account) → account.Value → State ι
  | .refreshToken, token =>
    { s.put .refreshToken (some token) with
      unsaved := Function.update s.unsaved i none, saved := s.saved ++ [token] }
  | account, value => s.put account (some value)

/-- The server has handed out `token` to task `i`, in a reply that arrives or is lost. -/
def given (i : ι) (presented : List String) (server : AuthWorld) (token : String) (delivered : Bool) : State ι :=
  { s with
    server := server
    rotations := s.rotations ++ presented.map fun old => (old, token)
    unsaved := if delivered then Function.update s.unsaved i (some token) else s.unsaved
    lost := if delivered then s.lost else s.lost ++ [token] }

/-- The server makes a call; `presented` is the token that was given for a new one. -/
def serve (i : ι) (presented : List String) (call : AuthCall) (now done : Time) (delivered : Bool) :
    Reply × State ι :=
  let server := s.server.after secrets call now done
  match s.server.answer secrets call now done with
  | .tokens issued =>
    (if delivered then .tokens issued else .failed, s.given i presented server issued.refreshToken delivered)
  | _ => (if delivered then .status 401 else .failed, { s with server := server })

/-- No task has stored this token: one still has it, or its reply was lost. -/
def Outstanding (token : String) : Prop := (∃ i, s.unsaved i = some token) ∨ token ∈ s.lost

/-- The tokens that this phone was ever given. -/
def Given (token : String) : Prop := token ∈ s.saved ∨ s.Outstanding token

/-- A call of the server at a later time than the one before. -/
def Later (now done : Time) : Prop := s.server.now ≤ now ∧ now ≤ done

/-- The call reaches the server, or something in between answers for it. -/
def Served (i : ι) (presented : List String) (call : AuthCall) (reply : Reply) (s' : State ι) : Prop :=
  (∃ now done delivered, s.Later now done ∧ (reply, s') = s.serve secrets i presented call now done delivered) ∨
    s' = s ∧ ∀ issued, reply ≠ .tokens issued

end State

def env (i : ι) : Prog.Env (State ι) Op Op.Ans := fun s o a s' =>
  match o, a with
  | .load account, value => value = s.keychain account ∧ s' = s.read i account
  | .delete account, deleted => s' = if deleted then s.put account none else s
  | .add account value, added =>
    if added then s.keychain account = none ∧ s' = s.stored i account value else s' = s
  | .pair code deviceName, reply => s.Served secrets i [] (.exchangePairingCode code deviceName) reply s'
  | .refresh token, reply => s.Served secrets i [token] (.rotateRefreshToken token) reply s'
  | .send token, _ =>
    s' = s ∨ ∃ jwt now done, token = some jwt ∧ s.Later now done ∧
      s' = { s with server := s.server.after secrets (.verifyAccessToken jwt) now done }

/-- What others ask of the server: nobody else has this phone's tokens. -/
def drift (s s' : State ι) : Prop :=
  ∃ call now done, s.Later now done ∧ (∀ token, call = .rotateRefreshToken token → ¬ s.Given token) ∧
    s' = { s with server := s.server.after secrets call now done }

def phone : Pool (State ι) ι Op Op.Ans APIError Unit where
  env := env secrets
  start _ _ _ := False
  drift := drift secrets

/-- From a phone that was never paired; every task makes one call of the client. -/
def Reachable (s : State ι) : Prop :=
  ∃ (server : AuthWorld) (calls : ι → Call) (tasks : ι → Client Unit), AuthRun secrets server ∧
    (phone secrets).Steps ({ server := server }, fun i => (calls i).client) (s, tasks)

end System

/-! ### The memory of one task -/

/-- The refresh token that a task has read, and one that it has to store. -/
abbrev Memory := Option String × Option String

def State.memory {ι : Type} (s : State ι) (i : ι) : Memory := (s.loaded i, s.unsaved i)

/-- The refresh token of a reply has to be stored. -/
def kept (m : Memory) : Reply → Memory
  | .tokens issued => (m.1, some issued.refreshToken)
  | _ => m

/-- What a call of its own does to the memory of a task. -/
def remember (m : Memory) : (o : Op) → o.Ans → Memory
  | .load .refreshToken, value => (value, m.2)
  | .add .refreshToken _, added => if added then (m.1, none) else m
  | .pair _ _, reply => kept m reply
  | .refresh _, reply => kept m reply
  | _, _ => m

def remembering : Prog.Env Memory Op Op.Ans := fun m o a m' => m' = remember m o a

/-- A task presents what it has read, asks for tokens when it has none to store, and stores the
refresh token it was given. -/
def Duty (m : Memory) : Op → Prop
  | .pair _ _ => m.2 = none
  | .refresh token => m = (some token, none)
  | .add .refreshToken token => m.2 = some token
  | _ => True

section Duties

variable {m : Memory} {Q : Unit → Memory → Prop}

/-- A program that does its duty, whatever it is answered. -/
def Dutiful {α : Type} (p : Client α) (Q : α → Memory → Prop) (m : Memory) : Prop :=
  p.wp Duty remembering Q (fun _ _ => True) m

theorem Dutiful.bind {α β : Type} {p : Client α} {f : α → Client β} {P : α → Memory → Prop}
    {Q : β → Memory → Prop} (hp : Dutiful p P m) (hf : ∀ a m', P a m' → Dutiful (f a) Q m') :
    Dutiful (p >>= f) Q m :=
  (Prog.wp_bind _ _).mpr (hp.post hf)

theorem dutiful_ask {o : Op} (h : Duty m o) :
    Dutiful (ask o) (fun a m' => m' = remember m o a) m := by
  refine ⟨h, fun a m' hm => ?_⟩
  exact hm

theorem dutiful_delete (account : Account) : Dutiful (ask (.delete account)) (fun _ m' => m' = m) m := by
  have hduty : Duty m (.delete account) := by cases account <;> trivial
  refine (dutiful_ask hduty).post fun deleted m' hm' => ?_
  cases account <;> exact hm'

theorem dutiful_save {account : Account} (value : account.Value) (h : Duty m (.add account value)) :
    Dutiful (save account value) (fun _ m' => m' = remember m (.add account value) true) m := by
  refine (dutiful_delete account).bind fun deleted m₁ hm₁ => ?_
  subst hm₁
  refine (dutiful_ask h).bind fun added m₂ hm₂ => ?_
  cases added with
  | true => exact hm₂
  | false => exact trivial

theorem dutiful_remove (account : Account) : Dutiful (remove account) (fun _ _ => True) m := by
  refine (dutiful_delete account).bind fun deleted m₁ _ => ?_
  cases deleted <;> exact trivial

theorem dutiful_load {account : Account} (h : account ≠ .refreshToken) :
    Dutiful (load account) (fun _ m' => m' = m) m := by
  refine (dutiful_ask (?_ : Duty m (.load account))).post fun value m' hm' => ?_
  · cases account <;> trivial
  · cases account with
    | refreshToken => exact absurd rfl h
    | serverURL => exact hm'
    | accessToken => exact hm'

theorem dutiful_request : Dutiful request (fun _ m' => m' = m) m := by
  have hserver : Account.serverURL ≠ .refreshToken := by decide
  have haccess : Account.accessToken ≠ .refreshToken := by decide
  refine (dutiful_load hserver).bind fun value m₁ hm₁ => ?_
  subst hm₁
  cases value with
  | none => exact trivial
  | some _ => exact dutiful_load haccess

theorem dutiful_saveTokens {issued : IssuedTokens} (h : m.2 = some issued.refreshToken) :
    Dutiful (saveTokens issued) (fun _ _ => True) m := by
  have haccess : Duty m (.add .accessToken issued.accessToken) := trivial
  have hrefresh : Duty m (.add .refreshToken issued.refreshToken) := h
  refine (dutiful_save _ haccess).bind fun _ m₁ hm₁ => ?_
  have hm₁ : m₁ = m := hm₁
  subst hm₁
  exact (dutiful_save _ hrefresh).post fun _ _ _ => trivial

theorem dutiful_refresh (loaded : Option String) : Dutiful refreshAccessToken (fun _ _ => True) (loaded, none) := by
  have hload : Duty (loaded, none) (.load .refreshToken) := trivial
  refine (dutiful_ask hload).bind fun value m₁ hm₁ => ?_
  have hm₁ : m₁ = (value, none) := hm₁
  subst hm₁
  cases value with
  | none => exact trivial
  | some token =>
    refine dutiful_request.bind fun _ m₂ hm₂ => ?_
    subst hm₂
    have hduty : Duty (some token, none) (.refresh token) := rfl
    refine (dutiful_ask hduty).bind fun reply m₃ hm₃ => ?_
    cases reply with
    | tokens issued =>
      subst hm₃
      exact dutiful_saveTokens rfl
    | status code => exact trivial
    | failed => exact trivial

theorem dutiful_pair (server code deviceName : String) (loaded : Option String) :
    Dutiful (pair server code deviceName) (fun _ _ => True) (loaded, none) := by
  have hduty : Duty (loaded, none) (.pair code deviceName) := rfl
  refine (dutiful_ask hduty).bind fun reply m₁ hm₁ => ?_
  cases reply with
  | tokens issued =>
    subst hm₁
    have hserver : Duty (loaded, some issued.refreshToken) (.add .serverURL server) := trivial
    refine (dutiful_save _ hserver).bind fun _ m₂ hm₂ => ?_
    subst hm₂
    exact dutiful_saveTokens rfl
  | status code => exact trivial
  | failed => exact trivial

theorem dutiful_send (token : Option Jwt) : Dutiful (send token) (fun _ m' => m' = m) m := by
  have hduty : Duty m (.send token) := trivial
  refine (dutiful_ask hduty).bind fun reply m₁ hm₁ => ?_
  cases reply with
  | none => exact trivial
  | some code => exact hm₁

theorem dutiful_retried (loaded : Option String) : Dutiful retried (fun _ _ => True) (loaded, none) := by
  refine (dutiful_refresh loaded).bind fun _ m₁ _ => ?_
  have haccess : Account.accessToken ≠ .refreshToken := by decide
  refine (dutiful_load haccess).bind fun value m₂ _ => ?_
  cases value with
  | none => exact trivial
  | some token => exact (dutiful_send (some token)).post fun _ _ _ => trivial

theorem dutiful_response (token : Option Jwt) (loaded : Option String) :
    Dutiful (response token) (fun _ _ => True) (loaded, none) := by
  refine (dutiful_send token).bind fun code m₁ hm₁ => ?_
  subst hm₁
  split_ifs with hcode
  · have hload : Duty (loaded, none) (.load .refreshToken) := trivial
    refine (dutiful_ask hload).bind fun value m₂ hm₂ => ?_
    cases value with
    | none => exact trivial
    | some token =>
      subst hm₂
      exact dutiful_retried _
  · exact trivial

/-- Whatever a task is asked for, it does its duty. -/
theorem dutiful_call (call : Call) : Dutiful call.client (fun _ _ => True) (none, none) := by
  cases call with
  | pair server code deviceName => exact dutiful_pair server code deviceName none
  | data =>
    refine dutiful_request.bind fun token m₁ hm₁ => ?_
    subst hm₁
    refine (dutiful_response token none).bind fun code m₂ _ => ?_
    split_ifs <;> exact trivial
  | download =>
    refine dutiful_request.bind fun token m₁ hm₁ => ?_
    subst hm₁
    refine (dutiful_send token).bind fun code m₂ hm₂ => ?_
    subst hm₂
    have hagain : Dutiful (retriedIfRefused code) (fun _ _ => True) (none, none) := by
      unfold retriedIfRefused
      split_ifs
      · exact dutiful_retried none
      · exact trivial
    refine hagain.bind fun code m₃ _ => ?_
    split_ifs <;> exact trivial
  | delete =>
    refine dutiful_request.bind fun token m₁ hm₁ => ?_
    subst hm₁
    refine (dutiful_response token none).bind fun code m₂ _ => ?_
    split_ifs <;> exact trivial
  | clearSession =>
    refine (dutiful_remove .accessToken).bind fun _ m₁ _ => ?_
    exact dutiful_remove .refreshToken

end Duties

end Mnema.Phone
