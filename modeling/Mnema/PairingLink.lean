import Mnema.DeviceCredentials
import Mnema.TelegramBot
import Mnema.Lib.PercentEncoding

/-! The link under which the bot hands out a pairing code, and what the phone reads from it. -/

namespace Mnema

open Percent (plused)

/-- A text as the phone reads it. -/
def asRead (s : String) : String := String.ofList (plused s.toList)

theorem asRead_eq_self_iff {s : String} : asRead s = s ↔ ' ' ∉ s.toList := by
  rw [← Percent.plused_eq_self_iff, asRead, ← String.toList_inj, String.toList_ofList]

namespace Telegram

/-- The items of the query, in the order of the dictionary. -/
def linkItems (settings : Settings) (code deviceName : String) : List (Percent.Text × Percent.Text) :=
  [("server".toList, settings.fileProviderPublicUrl.toList), ("code".toList, code.toList),
    ("device".toList, deviceName.toList)]

/-- `_pairing_link`. -/
def pairingLink (settings : Settings) (code deviceName : String) : String :=
  "mnema://pair?" ++ String.ofList (Percent.urlencode (linkItems settings code deviceName))

/-- Every code that was made, the chat was sent with its link. -/
def Told (link : String → String → String) (b : Bot) : Prop :=
  ∀ issue ∈ b.issued,
    .sendMessage issue.chatId (pairingText issue.deviceName issue.code (link issue.code issue.deviceName)) ∈ b.calls

section Told

variable {secrets : Secrets} {settings : Settings} {world : World} {link : String → String → String}
  {p q : BotM Unit} {b : Bot} {chat : Int} {name text : String} {now later : Time}

theorem Told.keeps_seq (hp : Leaves p b (Told link)) (hq : ∀ b', Told link b' → Leaves q b' (Told link)) :
    Leaves (do p; q) b (Told link) :=
  leaves_seq hp hq fun _ h => h

theorem Told.call (h : Told link b) (c : Call) : Leaves (call world c) b (Told link) := by
  apply leaves_get
  apply leaves_modify
  have told : Told link { b with calls := b.calls ++ [c] } :=
    fun issue hi => List.mem_append_left _ (h issue hi)
  show Effect.wp _ _ _ _
  rw [Effect.wp_attempt_const]
  exact ⟨fun _ => told, fun _ => told⟩

theorem Told.sendReport (h : Told link b) : Leaves (sendReport world chat name) b (Told link) :=
  keeps_seq (h.call _) fun _ h => h.call _

theorem Told.askForName (h : Told link b) : Leaves (askForName world chat now) b (Told link) :=
  leaves_modify _ (Told.call (b := b.request chat (now + 300)) h _)

theorem Told.action (h : Told link b) : Leaves (action settings world chat name now) b (Told link) := by
  unfold Telegram.action
  split_ifs
  · exact h.call _
  · exact h.call _
  · exact h.sendReport
  · exact h.call _
  · exact keeps_seq (h.call _) fun _ h => h.call _
  · exact leaves_tryCatch _ h.sendReport fun _ _ h => h.call _
  · exact h.askForName
  · exact h.call _

theorem Told.command (h : Told link b) : Leaves (command settings world chat text now) b (Told link) := by
  unfold Telegram.command
  split_ifs
  · exact h.call _
  · exact h.askForName
  · exact leaves_pure h
  · cases firstWord text with
    | none => exact leaves_throw _ h
    | some word => exact h.action

/-- The message about a new code is under way before anything else can fail. -/
theorem Told.pair (h : Told link b) : Leaves (pair secrets settings world link chat name now) b (Told link) := by
  unfold Telegram.pair
  split_ifs with hon
  · exact h.call _
  refine keeps_seq (h.call _) fun b' h' => ?_
  apply leaves_get
  apply leaves_modify
  refine keeps_seq ?_ fun b'' h'' => ?_
  · apply leaves_get
    apply leaves_modify
    have told : Told link { b'.issue secrets chat name now with
        calls := b'.calls ++ [.sendMessage chat (pairingText name (b'.auth.createPairingCode secrets now now).1
          (link (b'.auth.createPairingCode secrets now now).1 name))] } := by
      intro issue hi
      rcases List.mem_append.mp hi with hi | hi
      · exact List.mem_append_left _ (h' issue hi)
      · rw [List.mem_singleton.mp hi]
        exact List.mem_append_right _ (List.mem_singleton.mpr rfl)
    show Effect.wp _ _ _ _
    rw [Effect.wp_attempt_const]
    exact ⟨fun _ => told, fun _ => told⟩
  · refine leaves_tryCatch _ (h''.call _) fun fault _ h => ?_
    split_ifs
    · exact leaves_pure h
    · exact leaves_throw _ h

theorem Told.press {callback : CallbackQuery} (h : Told link b) :
    Leaves (press settings world callback later) b (Told link) := by
  refine keeps_seq ?_ fun b' h => ?_
  · cases callback.id != ""
    · exact leaves_pure h
    · exact h.call _
  cases callback.message with
  | none => exact leaves_throw _ h
  | some message =>
    show Leaves (if callback.data.getD "" = "pair" then _ else _) b' _
    split_ifs
    · exact h.askForName
    · exact h.action

theorem Told.receive {m : Message} (h : Told link b) :
    Leaves (receive secrets settings world link m now later) b (Told link) := by
  apply leaves_get
  cases b.pendingPairing m.chat.id with
  | none => exact h.command
  | some expires =>
    apply leaves_modify
    split_ifs
    · exact Told.pair (b := b.forget m.chat.id) h
    · exact Told.command (b := b.forget m.chat.id) h

theorem Told.handle (h : Told link b) (u : Update) :
    Leaves (handle secrets settings world link u now later) b (Told link) := by
  unfold Telegram.handle
  split_ifs
  · exact leaves_pure h
  cases u.callbackQuery with
  | some callback => exact h.press
  | none =>
    cases u.message with
    | some m => exact h.receive
    | none => exact leaves_throw _ h

theorem Told.handled (h : Told link b) (u : Update) :
    Told link (b.handled secrets settings world link u now later) :=
  (h.handle u).handled

theorem told_played (secrets : Secrets) (settings : Settings) (world : World) (link : String → String → String)
    (events : List Event) : Told link (played secrets settings world link events) := by
  induction events using List.reverseRecOn with
  | nil =>
    intro issue hi
    cases hi
  | append_singleton events e ih =>
    rw [played_snoc]
    cases e with
    | update u now later => exact ih.handled u
    | restart => exact ih
    | database auth => exact ih

end Told

end Telegram

/-! ### The phone -/

namespace Phone

/-- `URL` and `URLComponents`, as far as the parser looks at them. -/
structure Foundation where
  Url : Type
  url : String → Option Url
  scheme : Url → Option String
  host : Url → Option String
  user : Url → Option String
  password : Url → Option String
  percentEncodedQuery : Url → Option String

/-- The parts of a URL whose query is percent-encoded. -/
structure Foundation.Documented (F : Foundation) : Prop where
  pair : ∀ items : List (Percent.Text × Percent.Text), items ≠ [] →
    ∃ url, F.url ("mnema://pair?" ++ String.ofList (Percent.urlencode items)) = some url ∧
      F.scheme url = some "mnema" ∧ F.host url = some "pair" ∧
      F.percentEncodedQuery url = some (String.ofList (Percent.urlencode items))

structure PairingDeepLink (F : Foundation) where
  server : F.Url
  code : String
  deviceName : Option String

/-- `CharacterSet.whitespacesAndNewlines`. -/
def isWhitespaceOrNewline (c : Char) : Bool :=
  let n := c.toNat
  (9 ≤ n && n ≤ 13) || n == 0x20 || n == 0x85 || n == 0xa0 || n == 0x1680 ||
    (0x2000 ≤ n && n ≤ 0x200a) || n == 0x2028 || n == 0x2029 || n == 0x202f || n == 0x205f ||
    n == 0x3000

/-- `trimmingCharacters(in: .whitespacesAndNewlines).isEmpty`. -/
def isBlank (s : String) : Bool := s.toList.all isWhitespaceOrNewline

/-- `queryItems?.first(where: { $0.name == name })?.value`. -/
def firstValue (items : List (Percent.Text × Option Percent.Text)) (name : String) : Option String :=
  ((items.find? (·.1 == name.toList)).bind (·.2)).map String.ofList

variable (F : Foundation)

/-- What is asked of a server: HTTPS, a host, and no credentials. -/
def Foundation.accepts (server : F.Url) : Bool :=
  F.scheme server == some "https" && (F.host server).isSome && (F.user server).isNone &&
    (F.password server).isNone

/-- `PairingDeepLink.parse`. -/
def parse (url : F.Url) : Option (PairingDeepLink F) :=
  if F.scheme url = some "mnema" ∧ F.host url = some "pair" then do
    let query ← F.percentEncodedQuery url
    let items ← Percent.queryItems query.toList
    let server ← (firstValue items "server").bind F.url
    let code ← firstValue items "code"
    if F.accepts server && !isBlank code then some ⟨server, code, firstValue items "device"⟩ else none
  else none

section Reading

variable {F : Foundation}

theorem queryItems_link (settings : Telegram.Settings) (code deviceName : String) :
    Percent.queryItems (Percent.urlencode (Telegram.linkItems settings code deviceName)) =
      some [("server".toList, some (plused settings.fileProviderPublicUrl.toList)),
        ("code".toList, some (plused code.toList)), ("device".toList, some (plused deviceName.toList))] := by
  rw [Percent.queryItems_urlencode (by simp [Telegram.linkItems])]
  rfl

/-- The link is a pairing link exactly for a server that the phone accepts and a code that is not
blank, and carries them and the name, with a plus sign for each space. -/
theorem parse_pairingLink (hF : F.Documented) (settings : Telegram.Settings) (code deviceName : String) :
    ∃ url, F.url (Telegram.pairingLink settings code deviceName) = some url ∧
      ∀ link, parse F url = some link ↔
        F.url (asRead settings.fileProviderPublicUrl) = some link.server ∧ F.accepts link.server = true ∧
          isBlank (asRead code) = false ∧ link.code = asRead code ∧
          link.deviceName = some (asRead deviceName) := by
  obtain ⟨url, hurl, hscheme, hhost, hquery⟩ :=
    hF.pair (Telegram.linkItems settings code deviceName) (by simp [Telegram.linkItems])
  refine ⟨url, hurl, fun link => ?_⟩
  have hserver : firstValue [("server".toList, some (plused settings.fileProviderPublicUrl.toList)),
      ("code".toList, some (plused code.toList)), ("device".toList, some (plused deviceName.toList))] "server" =
      some (asRead settings.fileProviderPublicUrl) := rfl
  have hcode : firstValue [("server".toList, some (plused settings.fileProviderPublicUrl.toList)),
      ("code".toList, some (plused code.toList)), ("device".toList, some (plused deviceName.toList))] "code" =
      some (asRead code) := rfl
  have hdevice : firstValue [("server".toList, some (plused settings.fileProviderPublicUrl.toList)),
      ("code".toList, some (plused code.toList)), ("device".toList, some (plused deviceName.toList))] "device" =
      some (asRead deviceName) := rfl
  have hparse : parse F url = (F.url (asRead settings.fileProviderPublicUrl)).bind fun server =>
      if F.accepts server && !isBlank (asRead code) then
        some ⟨server, asRead code, some (asRead deviceName)⟩
      else none := by
    unfold parse
    rw [if_pos ⟨hscheme, hhost⟩, hquery, Option.bind_eq_bind, Option.bind_some, String.toList_ofList,
      queryItems_link, Option.bind_eq_bind, Option.bind_some, hserver, hcode, hdevice]
    rfl
  rw [hparse]
  cases F.url (asRead settings.fileProviderPublicUrl) with
  | none => simp
  | some server =>
    obtain ⟨linkServer, linkCode, linkName⟩ := link
    rw [Option.bind_some, Option.some_inj]
    by_cases hok : (F.accepts server && !isBlank (asRead code)) = true
    · rw [if_pos hok, Option.some_inj, PairingDeepLink.mk.injEq]
      rw [Bool.and_eq_true, Bool.not_eq_true'] at hok
      constructor
      · rintro ⟨rfl, rfl, rfl⟩
        exact ⟨rfl, hok.1, hok.2, rfl, rfl⟩
      · rintro ⟨rfl, -, -, rfl, rfl⟩
        exact ⟨rfl, rfl, rfl⟩
    · rw [if_neg hok]
      rw [Bool.and_eq_true, Bool.not_eq_true'] at hok
      constructor
      · intro h
        cases h
      · rintro ⟨rfl, haccepts, hblank, -⟩
        exact absurd ⟨haccepts, hblank⟩ hok

end Reading

/-- A reader of the links of the bot and of addresses without a path. -/
def plainUrl (s : String) : Option ((String × String) × Option String) :=
  if "mnema://pair?".toList.isPrefixOf s.toList then some (("mnema", "pair"), some (String.ofList (s.toList.drop 13)))
  else if "https://".toList.isPrefixOf s.toList then some (("https", String.ofList (s.toList.drop 8)), none)
  else none

def plainFoundation : Foundation where
  Url := (String × String) × Option String
  url := plainUrl
  scheme url := some url.1.1
  host url := some url.1.2
  user _ := none
  password _ := none
  percentEncodedQuery url := url.2

theorem documented_plainFoundation : plainFoundation.Documented := by
  refine ⟨fun items _ => ⟨(("mnema", "pair"), _), ?_, rfl, rfl, rfl⟩⟩
  simp [plainFoundation, plainUrl, String.toList_append]

def messageFrom (id : Nat) (text : String) : Telegram.Event :=
  .update { updateId := id, message := some { chat := ⟨1, "private"⟩, sender := some 1, text := some text } } 0 0

def twoPairings : List Telegram.Event :=
  [messageFrom 1 "/pair", messageFrom 2 "Hydra", messageFrom 3 "/pair", messageFrom 4 "My phone"]

def publicUrl : Telegram.Settings := ⟨[1], true, "https://files.example.com"⟩

end Phone

end Mnema
