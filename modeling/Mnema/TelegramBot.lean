import Mnema.Auth
import Mnema.Uploads
import Mnema.Lib.Effect
import Mnema.Lib.Store
import Mathlib.Data.List.Induction

/-! The Telegram bot: what it does with one update, and for whom it makes pairing codes. -/

namespace Mnema.Telegram

open PyText

structure Chat where
  id : Int
  type : String
deriving DecidableEq, Repr

structure Message where
  chat : Chat
  sender : Option Int := none
  text : Option String := none
deriving DecidableEq, Repr

structure CallbackQuery where
  id : String
  sender : Option Int := none
  message : Option Message := none
  data : Option String := none
deriving DecidableEq, Repr

structure Update where
  updateId : Nat
  message : Option Message := none
  callbackQuery : Option CallbackQuery := none
deriving DecidableEq, Repr

structure Settings where
  telegramAllowedUserIds : List Int
  fileProviderEnabled : Bool
  fileProviderPublicUrl : String

/-- What the bot asks of Telegram, of the database and of the disk, in order. -/
inductive Call where
  | answerCallbackQuery (id : String)
  | sendMessage (chatId : Int) (text : String)
  | sendPhoto (chatId : Int) (caption : String)
  | createPairingCode
  | projectVerifiedArchives
  | report (action : String)
deriving DecidableEq, Repr

/-- `handled` stands for the three exceptions that `_pair` and the dry run catch. -/
inductive Fault where
  | handled
  | other
  | keyError
  | indexError
deriving DecidableEq, Repr

/-- A code that was made, for the name a chat gave. -/
structure Issue where
  chatId : Int
  deviceName : String
  code : String
deriving DecidableEq, Repr

structure Bot where
  pendingPairing : Store Int Time := .empty
  auth : Auth := {}
  issued : List Issue := []
  calls : List Call := []

abbrev BotM := Effect Bot Fault

/-- What stands outside the bot: which calls fail, after the calls before them, and what the
reports say. -/
structure World where
  fails : List Call → Call → Option Fault
  report : String → String

def menuText : String :=
  "Mnema administration\n\nChoose an operation below. Pairing codes expire after ten minutes and can be used once."

section Bot

variable (secrets : Secrets) (settings : Settings) (world : World)

/-- `authorized`: a button carries the person who pressed it on the callback. -/
def authorized (update : Update) : Bool :=
  let message := update.message.or (update.callbackQuery.bind (·.message))
  let sender := match update.callbackQuery with
    | some callback => callback.sender
    | none => message.bind (·.sender)
  message.any (fun m => m.chat.type == "private") &&
    sender.any fun id => settings.telegramAllowedUserIds.contains id

def call (c : Call) : BotM Unit := do
  let bot : Bot ← get
  modify fun bot => { bot with calls := bot.calls ++ [c] }
  Effect.attempt (world.fails bot.calls c)

def sendMessage (chatId : Int) (text : String) : BotM Unit := call world (.sendMessage chatId text)

def pairingText (deviceName code link : String) : String :=
  "Pairing token for " ++ deviceName ++ ":\n\n" ++ code ++
    "\n\nThis token expires in 10 minutes and is single-use. Delete this message after pairing.\n\n" ++
    "Open Mnema directly: " ++ link

/-- A new code in the database, for the name a chat gave. -/
def Bot.issue (bot : Bot) (chatId : Int) (deviceName : String) (now : Time) : Bot :=
  let (code, auth) := bot.auth.createPairingCode secrets now now
  { bot with auth := auth, issued := bot.issued ++ [⟨chatId, deviceName, code⟩] }

/-- `_pair`, given the link that `_pairing_link` makes. -/
def pair (link : String → String → String) (chatId : Int) (deviceName : String) (now : Time) : BotM Unit :=
  if !settings.fileProviderEnabled then
    sendMessage world chatId "File Provider is disabled in Mnema configuration."
  else do
    call world .createPairingCode
    let bot : Bot ← get
    let code := (bot.auth.createPairingCode secrets now now).1
    modify fun bot => bot.issue secrets chatId deviceName now
    sendMessage world chatId (pairingText deviceName code (link code deviceName))
    tryCatch (call world (.sendPhoto chatId "Scan this QR code in Mnema.")) fun fault =>
      if fault = .handled then pure () else throw fault

def Bot.request (bot : Bot) (chatId : Int) (expires : Time) : Bot :=
  { bot with pendingPairing := bot.pendingPairing.put chatId expires }

def Bot.forget (bot : Bot) (chatId : Int) : Bot :=
  { bot with pendingPairing := bot.pendingPairing.erase chatId }

/-- The five minutes in which a chat may answer with a name. -/
def askForName (chatId : Int) (now : Time) : BotM Unit := do
  modify fun bot => bot.request chatId (now + 300)
  sendMessage world chatId "Reply with the device name to create a pairing token."

def sendReport (chatId : Int) (action : String) : BotM Unit := do
  call world (.report action)
  sendMessage world chatId (world.report action)

def urlsText : String :=
  "File Provider: " ++ if settings.fileProviderPublicUrl = "" then "disabled" else settings.fileProviderPublicUrl

/-- `_action`. -/
def action (chatId : Int) (name : String) (now : Time) : BotM Unit :=
  if ["menu", "start", "help"].contains name then sendMessage world chatId menuText
  else if name = "urls" then sendMessage world chatId (urlsText settings)
  else if ["status", "health", "devices"].contains name then sendReport world chatId name
  else if name = "project" then
    sendMessage world chatId "Projecting verified archives changes the File Provider index. Continue?"
  else if name = "project-confirm" then do
    call world .projectVerifiedArchives
    sendMessage world chatId (world.report name)
  else if name = "dry-run" then
    tryCatch (sendReport world chatId name) fun _ =>
      sendMessage world chatId "Dry run could not be completed safely."
  else if name = "pair" then askForName world chatId now
  else sendMessage world chatId "Unknown command. Use /start to open the Mnema menu."

/-- `text.removeprefix("/").split()[0]`; `none` where there is no word. -/
def firstWord (text : String) : Option String :=
  let rest := match text.toList with
    | '/' :: rest => rest
    | cs => cs
  let word := (rest.dropWhile isSpace).takeWhile fun c => !isSpace c
  if word = [] then none else some (String.ofList word)

def command (chatId : Int) (text : String) (now : Time) : BotM Unit :=
  if text = "/start" ∨ text = "/help" then sendMessage world chatId menuText
  else if text = "/pair" then askForName world chatId now
  else if text = "" then pure ()
  else match firstWord text with
    | none => throw .indexError
    | some name => action settings world chatId name now

/-- A name for a device: not empty, and no command. -/
def namesDevice (text : String) : Bool := text != "" && text.toList.head? != some '/'

def deviceName (text : String) : String := String.ofList (text.toList.take 80)

/-- What a press of a button does. -/
def press (callback : CallbackQuery) (later : Time) : BotM Unit := do
  Effect.onlyIf (callback.id != "") (call world (.answerCallbackQuery callback.id))
  match callback.message with
  | none => throw .keyError
  | some message =>
    if callback.data.getD "" = "pair" then askForName world message.chat.id later
    else action settings world message.chat.id (callback.data.getD "") later

/-- What a message does; `now` is when the bot looks at the clock, `later` when it notes a request. -/
def receive (link : String → String → String) (message : Message) (now later : Time) : BotM Unit := do
  let bot : Bot ← get
  let text := strip (message.text.getD "")
  match bot.pendingPairing message.chat.id with
  | none => command settings world message.chat.id text later
  | some expires => do
    modify fun bot => bot.forget message.chat.id
    if now ≤ expires ∧ namesDevice text = true then
      pair secrets settings world link message.chat.id (deviceName text) later
    else command settings world message.chat.id text later

def handle (link : String → String → String) (update : Update) (now later : Time) : BotM Unit :=
  if !authorized settings update then pure ()
  else match update.callbackQuery, update.message with
    | some callback, _ => press settings world callback later
    | none, some message => receive secrets settings world link message now later
    | none, none => throw .keyError

end Bot

/-- What happens to a bot. `database` is what others leave in the tables. -/
inductive Event where
  | update (update : Update) (now later : Time)
  | restart
  | database (auth : Auth)

section Run

variable (secrets : Secrets) (settings : Settings) (world : World) (link : String → String → String)

/-- The bot after an update; what was changed before an exception stays changed. -/
def Bot.handled (bot : Bot) (update : Update) (now later : Time) : Bot :=
  match (handle secrets settings world link update now later).run bot with
  | .ok _ bot => bot
  | .error _ bot => bot

def Bot.after (bot : Bot) : Event → Bot
  | .update update now later => bot.handled secrets settings world link update now later
  | .restart => { bot with pendingPairing := .empty }
  | .database auth => { bot with auth := auth }

def played (events : List Event) : Bot := events.foldl (Bot.after secrets settings world link) {}

end Run

/-- The chat in which an update asks for a pairing. -/
def Update.asksIn (update : Update) : Option Int :=
  match update.callbackQuery, update.message with
  | some callback, _ => match callback.message, callback.data.getD "" with
    | some message, data => if data = "pair" then some message.chat.id else none
    | none, _ => none
  | none, some message =>
    let text := strip (message.text.getD "")
    if text = "/pair" ∨ firstWord text = some "pair" then some message.chat.id else none
  | none, none => none

/-- The chat of an update that is a message, not a button. -/
def Update.writtenIn (update : Update) : Option Int :=
  match update.callbackQuery with
  | some _ => none
  | none => update.message.map (·.chat.id)

/-- An authorized request for a pairing in `chat`. -/
def Event.requests (settings : Settings) (chat : Int) : Event → Bool
  | .update u _ _ => authorized settings u && u.asksIn == some chat
  | _ => false

/-- The request was noted at `time`. -/
def Event.Asks (settings : Settings) (chat : Int) (time : Time) (e : Event) : Prop :=
  e.requests settings chat = true ∧ ∃ u now, e = .update u now time

/-- A request in `chat` from before is forgotten. -/
def Event.Ends (settings : Settings) (chat : Int) : Event → Prop
  | .update u _ _ => authorized settings u = true ∧ u.writtenIn = some chat
  | .restart => True
  | .database _ => False

/-- An authorized message in the private chat, at `time`, that gives a name for a device. -/
def Event.Names (settings : Settings) (chat : Int) (name : String) (time : Time) : Event → Prop
  | .update u now _ => authorized settings u = true ∧ u.writtenIn = some chat ∧ time = now ∧
      ∃ m, u.message = some m ∧ namesDevice (strip (m.text.getD "")) = true ∧
        name = deviceName (strip (m.text.getD ""))
  | _ => False

/-- All but the calls that were made. -/
def Bot.Same (b b' : Bot) : Prop :=
  b'.pendingPairing = b.pendingPairing ∧ b'.auth = b.auth ∧ b'.issued = b.issued

/-- Whether the program returns or raises, `P` holds then. -/
def Leaves (p : BotM Unit) (b : Bot) (P : Bot → Prop) : Prop := p.wp (fun _ => P) (fun _ => P) b

section Leaves

variable {secrets : Secrets} {settings : Settings} {world : World} {link : String → String → String}
  {p q : BotM Unit} {b : Bot} {P P' : Bot → Prop} {chat : Int} {name text : String} {now later : Time}

theorem Leaves.mono (h : Leaves p b P) (hP : ∀ b', P b' → P' b') : Leaves p b P' :=
  Effect.wp.mono h (fun _ => hP) fun _ => hP

theorem leaves_pure (h : P b) : Leaves (pure ()) b P := h

theorem leaves_throw (fault : Fault) (h : P b) : Leaves (throw fault) b P := h

theorem leaves_seq (hp : Leaves p b P) (hq : ∀ b', P b' → Leaves q b' P') (he : ∀ b', P b' → P' b') :
    Leaves (do p; q) b P' := by
  show Effect.wp _ _ _ _
  rw [Effect.wp_bind]
  exact Effect.wp.mono hp (fun _ => hq) fun _ => he

theorem leaves_modify (f : Bot → Bot) (h : Leaves p (f b) P) : Leaves (do modify f; p) b P := by
  show Effect.wp _ _ _ _
  rw [Effect.wp_bind, Effect.wp_modify]
  exact h

theorem leaves_get (k : Bot → BotM Unit) (h : Leaves (k b) b P) : Leaves (do k (← get)) b P := by
  show Effect.wp _ _ _ _
  rw [Effect.wp_bind, Effect.wp_get]
  exact h

theorem leaves_tryCatch (k : Fault → BotM Unit) (hp : Leaves p b P) (hk : ∀ f b', P b' → Leaves (k f) b' P) :
    Leaves (tryCatch p k) b P := by
  show Effect.wp _ _ _ _
  rw [Effect.wp_tryCatch]
  exact Effect.wp.mono hp (fun _ _ h => h) hk

theorem Bot.Same.trans {b₁ b₂ b₃ : Bot} (h : b₁.Same b₂) (h' : b₂.Same b₃) : b₁.Same b₃ :=
  ⟨h'.1.trans h.1, h'.2.1.trans h.2.1, h'.2.2.trans h.2.2⟩

theorem Bot.Same.request {b b' : Bot} (h : b.Same b') (chat : Int) (expires : Time) :
    (b.request chat expires).Same (b'.request chat expires) := by
  obtain ⟨hp, hauth, hi⟩ := h
  simp only [Bot.request, Bot.Same, hp, hauth, hi, and_self]

theorem Bot.Same.issue {b b' : Bot} (h : b.Same b') (secrets : Secrets) (chat : Int) (name : String) (now : Time) :
    (b.issue secrets chat name now).Same (b'.issue secrets chat name now) := by
  obtain ⟨hp, hauth, hi⟩ := h
  simp only [Bot.issue, Bot.Same, hp, hauth, hi, and_self]

theorem leaves_call (c : Call) : Leaves (call world c) b b.Same := by
  apply leaves_get
  apply leaves_modify
  show Effect.wp _ _ _ _
  rw [Effect.wp_attempt_const]
  exact ⟨fun _ => ⟨rfl, rfl, rfl⟩, fun _ => ⟨rfl, rfl, rfl⟩⟩

theorem leaves_call_of_same {b₀ : Bot} (h : b₀.Same b) (c : Call) : Leaves (call world c) b b₀.Same :=
  (leaves_call c).mono fun _ => h.trans

theorem leaves_sendReport : Leaves (sendReport world chat name) b b.Same :=
  leaves_seq (leaves_call _) (fun _ h => leaves_call_of_same h _) fun _ h => h

theorem leaves_askForName : Leaves (askForName world chat now) b (b.request chat (now + 300)).Same :=
  leaves_modify _ (leaves_call _)

theorem leaves_action : Leaves (action settings world chat name now) b fun b' =>
    b.Same b' ∨ name = "pair" ∧ (b.request chat (now + 300)).Same b' := by
  have quiet : ∀ {p : BotM Unit}, Leaves p b b.Same →
      Leaves p b fun b' => b.Same b' ∨ name = "pair" ∧ (b.request chat (now + 300)).Same b' :=
    fun h => h.mono fun _ => Or.inl
  unfold action
  split_ifs with hmenu hurls hreport hproject hconfirm hdry hpair
  · exact quiet (leaves_call _)
  · exact quiet (leaves_call _)
  · exact quiet leaves_sendReport
  · exact quiet (leaves_call _)
  · exact quiet (leaves_seq (leaves_call _) (fun _ h => leaves_call_of_same h _) fun _ h => h)
  · exact quiet (leaves_tryCatch _ leaves_sendReport fun _ _ h => leaves_call_of_same h _)
  · exact leaves_askForName.mono fun _ h => Or.inr ⟨hpair, h⟩
  · exact quiet (leaves_call _)

theorem leaves_command : Leaves (command settings world chat text now) b fun b' =>
    b.Same b' ∨ (text = "/pair" ∨ firstWord text = some "pair") ∧ (b.request chat (now + 300)).Same b' := by
  unfold command
  split_ifs with hmenu hpair hempty
  · exact (leaves_call _).mono fun _ => Or.inl
  · exact leaves_askForName.mono fun _ h => Or.inr ⟨Or.inl hpair, h⟩
  · exact leaves_pure (Or.inl ⟨rfl, rfl, rfl⟩)
  · cases hw : firstWord text with
    | none => exact leaves_throw _ (Or.inl ⟨rfl, rfl, rfl⟩)
    | some word =>
      refine leaves_action.mono fun b' h => ?_
      rcases h with h | ⟨hpair, h⟩
      · exact Or.inl h
      · exact Or.inr ⟨Or.inr (congrArg some hpair), h⟩

theorem leaves_pair : Leaves (pair secrets settings world link chat name now) b fun b' =>
    b.Same b' ∨ settings.fileProviderEnabled = true ∧ (b.issue secrets chat name now).Same b' := by
  unfold pair
  split_ifs with hon
  · exact (leaves_call _).mono fun _ => Or.inl
  · have hon : settings.fileProviderEnabled = true := by simpa using hon
    have issued : ∀ {p : BotM Unit} {b' : Bot}, Leaves p b' (b.issue secrets chat name now).Same →
        Leaves p b' fun b' => b.Same b' ∨
          settings.fileProviderEnabled = true ∧ (b.issue secrets chat name now).Same b' :=
      fun h => h.mono fun _ h => Or.inr ⟨hon, h⟩
    refine leaves_seq (leaves_call _) (fun b' h => ?_) fun _ => Or.inl
    apply leaves_get
    apply leaves_modify
    refine issued (leaves_seq (leaves_call_of_same (h.issue secrets chat name now) _) (fun _ h => ?_) fun _ h => h)
    refine leaves_tryCatch _ (leaves_call_of_same h _) fun fault _ h => ?_
    split_ifs with hf
    · exact leaves_pure h
    · exact leaves_throw _ h

/-- What the bot has to forget when an update comes. -/
def Bot.heard (settings : Settings) (b : Bot) (u : Update) : Bot :=
  if authorized settings u = true then
    match u.writtenIn with
    | some chat => b.forget chat
    | none => b
  else b

/-- What one update does: nothing but calls, or a request, or a code for a chat that had asked. -/
def Stepped (secrets : Secrets) (settings : Settings) (b : Bot) (u : Update) (now later : Time) (b' : Bot) : Prop :=
  (b.heard settings u).Same b' ∨
  (∃ chat, Event.Asks settings chat later (.update u now later) ∧
    ((b.heard settings u).request chat (later + 300)).Same b') ∨
  ∃ chat name expires, Event.Names settings chat name now (.update u now later) ∧
    b.pendingPairing chat = some expires ∧ now ≤ expires ∧ settings.fileProviderEnabled = true ∧
    ((b.heard settings u).issue secrets chat name later).Same b'

theorem leaves_press {u : Update} {callback : CallbackQuery} (hu : u.callbackQuery = some callback)
    (ha : authorized settings u = true) :
    Leaves (press settings world callback later) b (Stepped secrets settings b u now later) := by
  have heard : b.heard settings u = b := by simp [Bot.heard, Update.writtenIn, hu]
  have quiet : ∀ b', b.Same b' → Stepped secrets settings b u now later b' := by
    intro b' h
    exact Or.inl (heard.symm ▸ h)
  have answered :
      Leaves (Effect.onlyIf (callback.id != "") (call world (.answerCallbackQuery callback.id))) b b.Same := by
    cases callback.id != ""
    · exact leaves_pure ⟨rfl, rfl, rfl⟩
    · exact leaves_call _
  refine leaves_seq answered (fun b' h => ?_) quiet
  cases hm : callback.message with
  | none => exact leaves_throw _ (quiet _ h)
  | some message =>
    have asks : callback.data.getD "" = "pair" →
        Event.Asks settings message.chat.id later (.update u now later) := by
      intro hpair
      exact ⟨by simp [Event.requests, ha, Update.asksIn, hu, hm, hpair], u, now, rfl⟩
    have requested : ∀ b'', callback.data.getD "" = "pair" →
        (b'.request message.chat.id (later + 300)).Same b'' → Stepped secrets settings b u now later b'' := by
      intro b'' hpair h'
      refine Or.inr (Or.inl ⟨_, asks hpair, ?_⟩)
      rw [heard]
      exact (h.request _ _).trans h'
    show Leaves (if callback.data.getD "" = "pair" then _ else _) b' _
    split_ifs with hpair
    · exact leaves_askForName.mono fun b'' => requested b'' hpair
    · refine leaves_action.mono fun b'' h' => ?_
      rcases h' with h' | ⟨hpair', -⟩
      · exact quiet _ (h.trans h')
      · exact absurd hpair' hpair

theorem leaves_receive {u : Update} {m : Message} (hc : u.callbackQuery = none) (hm : u.message = some m)
    (ha : authorized settings u = true) :
    Leaves (receive secrets settings world link m now later) b (Stepped secrets settings b u now later) := by
  have heard : b.heard settings u = b.forget m.chat.id := by simp [Bot.heard, Update.writtenIn, hc, hm, ha]
  have commanded : Leaves (command settings world m.chat.id (strip (m.text.getD "")) later) (b.forget m.chat.id)
      (Stepped secrets settings b u now later) := by
    refine leaves_command.mono fun b' h => ?_
    rcases h with h | ⟨hpair, h⟩
    · exact Or.inl (heard.symm ▸ h)
    · have asks : u.asksIn = some m.chat.id := by
        unfold Update.asksIn
        rw [hc, hm]
        exact if_pos hpair
      exact Or.inr (Or.inl ⟨m.chat.id, ⟨by simp [Event.requests, ha, asks], u, now, rfl⟩, heard.symm ▸ h⟩)
  apply leaves_get
  cases hp : b.pendingPairing m.chat.id with
  | none =>
    have hforget : b.forget m.chat.id = b := by simp [Bot.forget, Store.erase_of_none hp]
    rw [hforget] at commanded
    exact commanded
  | some expires =>
    apply leaves_modify
    split_ifs with hname
    · obtain ⟨hin, hname⟩ := hname
      refine leaves_pair.mono fun b' h => ?_
      rcases h with h | ⟨hon, h⟩
      · exact Or.inl (heard.symm ▸ h)
      · have hin' : u.writtenIn = some m.chat.id := by simp [Update.writtenIn, hc, hm]
        exact Or.inr (Or.inr ⟨m.chat.id, _, expires, ⟨ha, hin', rfl, m, hm, hname, rfl⟩, hp, hin, hon,
          heard.symm ▸ h⟩)
    · exact commanded

theorem leaves_handle (u : Update) :
    Leaves (handle secrets settings world link u now later) b (Stepped secrets settings b u now later) := by
  unfold handle
  split_ifs with hun
  · have hun : authorized settings u = false := by simpa using hun
    have heard : b.heard settings u = b := by simp [Bot.heard, hun]
    exact leaves_pure (Or.inl (heard.symm ▸ ⟨rfl, rfl, rfl⟩))
  · have ha : authorized settings u = true := by simpa using hun
    cases hc : u.callbackQuery with
    | some callback => exact leaves_press hc ha
    | none =>
      cases hm : u.message with
      | some m => exact leaves_receive hc hm ha
      | none =>
        have heard : b.heard settings u = b := by simp [Bot.heard, Update.writtenIn, hc, hm]
        exact leaves_throw _ (Or.inl (heard.symm ▸ ⟨rfl, rfl, rfl⟩))

theorem Leaves.handled {u : Update} (h : Leaves (handle secrets settings world link u now later) b P) :
    P (b.handled secrets settings world link u now later) := by
  unfold Leaves Effect.wp at h
  unfold Bot.handled
  cases hrun : (handle secrets settings world link u now later).run b with
  | ok a b' =>
    rw [hrun] at h
    exact h
  | error e b' =>
    rw [hrun] at h
    exact h

theorem stepped_handled (u : Update) :
    Stepped secrets settings b u now later (b.handled secrets settings world link u now later) :=
  (leaves_handle u).handled

end Leaves

/-- The chat asked, and nothing since then made the bot forget it. -/
def Open (settings : Settings) (events : List Event) (chat : Int) (expires : Time) : Prop :=
  ∃ before asked between time, events = before ++ asked :: between ∧ Event.Asks settings chat time asked ∧
    (∀ e ∈ between, ¬ Event.Ends settings chat e) ∧ expires = time + 300

section Runs

variable {secrets : Secrets} {settings : Settings} {world : World} {link : String → String → String}
  {b : Bot} {chat : Int} {expires now later : Time}

theorem Open.snoc {events : List Event} (h : Open settings events chat expires) {e : Event}
    (he : ¬ Event.Ends settings chat e) : Open settings (events ++ [e]) chat expires := by
  obtain ⟨before, asked, between, time, rfl, hasked, hbetween, hexp⟩ := h
  refine ⟨before, asked, between ++ [e], time, by simp, hasked, ?_, hexp⟩
  intro x hx
  rcases List.mem_append.mp hx with hx | hx
  · exact hbetween x hx
  · rw [List.mem_singleton.mp hx]
    exact he

theorem open_of_asks (events : List Event) {e : Event} (h : Event.Asks settings chat now e) :
    Open settings (events ++ [e]) chat (now + 300) := by
  refine ⟨events, e, [], now, rfl, h, ?_, rfl⟩
  intro x hx
  cases hx

theorem pendingPairing_heard {u : Update} (h : (b.heard settings u).pendingPairing chat = some expires) :
    b.pendingPairing chat = some expires ∧ ¬ Event.Ends settings chat (.update u now later) := by
  unfold Bot.heard at h
  split_ifs at h with ha
  · cases hw : u.writtenIn with
    | none =>
      rw [hw] at h
      exact ⟨h, fun he => absurd (hw.symm.trans he.2) (by simp)⟩
    | some other =>
      rw [hw] at h
      have hne : chat ≠ other := by
        intro heq
        simp [Bot.forget, heq] at h
      have hb : b.pendingPairing chat = some expires := by simpa [Bot.forget, Store.erase_of_ne _ hne] using h
      exact ⟨hb, fun he => hne (Option.some.inj (he.2.symm.trans hw))⟩
  · exact ⟨h, fun he => ha he.1⟩

theorem heard_tables (b : Bot) (settings : Settings) (u : Update) :
    (b.heard settings u).auth = b.auth ∧ (b.heard settings u).issued = b.issued := by
  unfold Bot.heard
  split_ifs
  · cases u.writtenIn <;> exact ⟨rfl, rfl⟩
  · exact ⟨rfl, rfl⟩

theorem played_snoc (events : List Event) (e : Event) :
    played secrets settings world link (events ++ [e]) =
      (played secrets settings world link events).after secrets settings world link e := by
  simp [played]

/-- A chat is waited for only while its request is open. -/
theorem open_of_pending (events : List Event) :
    ∀ chat expires, (played secrets settings world link events).pendingPairing chat = some expires →
      Open settings events chat expires := by
  induction events using List.reverseRecOn with
  | nil =>
    intro chat expires h
    simp [played, Store.empty] at h
  | append_singleton events e ih =>
    intro chat expires h
    rw [played_snoc] at h
    cases e with
    | restart => simp [Bot.after, Store.empty] at h
    | database auth => exact (ih chat expires h).snoc id
    | update u now later =>
      have kept : ((played secrets settings world link events).heard settings u).pendingPairing chat = some expires →
          Open settings (events ++ [.update u now later]) chat expires := by
        intro hk
        obtain ⟨hb, he⟩ := pendingPairing_heard hk
        exact (ih chat expires hb).snoc he
      rcases stepped_handled u with hs | ⟨other, hasks, hs⟩ | ⟨other, name, _, -, -, -, -, hs⟩
      · exact kept (hs.1 ▸ h)
      · have h := hs.1 ▸ h
        by_cases hc : chat = other
        · subst hc
          have hexp : later + 300 = expires := by simpa [Bot.request] using h
          exact hexp ▸ open_of_asks events hasks
        · exact kept (by simpa [Bot.request, Store.put_of_ne _ hc] using h)
      · exact kept (hs.1 ▸ h)

/-- Whatever happens to the bot, it makes a code only for a name sent in a chat whose request is
open, at most five minutes after the request. -/
theorem code_requested (secrets : Secrets) (settings : Settings) (world : World)
    (link : String → String → String) (events : List Event) (e : Event) :
    let bot := played secrets settings world link events
    let bot' := played secrets settings world link (events ++ [e])
    (bot'.issued = bot.issued ∧ (bot'.auth = bot.auth ∨ e = .database bot'.auth)) ∨
      ∃ issue now later expires, settings.fileProviderEnabled = true ∧
        bot'.issued = bot.issued ++ [issue] ∧
        (issue.code, bot'.auth) = bot.auth.createPairingCode secrets later later ∧
        e.Names settings issue.chatId issue.deviceName now ∧
        Open settings events issue.chatId expires ∧ now ≤ expires := by
  intro bot bot'
  have hbot' : bot' = bot.after secrets settings world link e := played_snoc events e
  rw [hbot']
  cases e with
  | restart => exact Or.inl ⟨rfl, Or.inl rfl⟩
  | database auth => exact Or.inl ⟨rfl, Or.inr rfl⟩
  | update u now later =>
    obtain ⟨hauth, hissued⟩ := heard_tables bot settings u
    rcases stepped_handled u with hs | ⟨chat, -, hs⟩ | ⟨chat, name, expires, hname, hp, hin, hon, hs⟩
    · exact Or.inl ⟨hs.2.2.trans hissued, Or.inl (hs.2.1.trans hauth)⟩
    · exact Or.inl ⟨hs.2.2.trans hissued, Or.inl (hs.2.1.trans hauth)⟩
    · refine Or.inr ⟨⟨chat, name, (bot.auth.createPairingCode secrets later later).1⟩, now, later, expires,
        hon, ?_, ?_, hname, open_of_pending events chat expires hp, hin⟩
      · exact hs.2.2.trans (by simp only [Bot.issue, hauth, hissued])
      · exact Prod.ext rfl (hs.2.1.trans (by simp only [Bot.issue, hauth]))

/-- The codes made for `chat`, and one more if the bot still waits for a name. -/
def Bot.owed (b : Bot) (chat : Int) : Nat :=
  b.issued.countP (fun issue => issue.chatId == chat) + (b.pendingPairing chat).toList.length

theorem waits_heard (b : Bot) (u : Update) (chat : Int) :
    ((b.heard settings u).pendingPairing chat).toList.length ≤ (b.pendingPairing chat).toList.length := by
  cases hp : (b.heard settings u).pendingPairing chat with
  | none => exact Nat.zero_le _
  | some expires =>
    obtain ⟨hb, -⟩ : b.pendingPairing chat = some expires ∧ ¬ Event.Ends settings chat (.update u 0 0) :=
      pendingPairing_heard hp
    rw [hb]

theorem heard_of_names {u : Update} {name : String}
    (h : Event.Names settings chat name now (.update u now later)) : b.heard settings u = b.forget chat := by
  simp only [Bot.heard, h.1, h.2.1, if_true]

/-- An update that asks adds at most one to what a chat is owed, and no other adds anything. -/
theorem owed_handled (b : Bot) (u : Update) (chat : Int) :
    (b.handled secrets settings world link u now later).owed chat ≤
      b.owed chat + if Event.requests settings chat (.update u now later) then 1 else 0 := by
  have hissued := (heard_tables b settings u).2
  have hwaits : ((b.heard settings u).pendingPairing chat).toList.length ≤ _ := waits_heard b u chat
  unfold Bot.owed
  rcases stepped_handled u with hs | ⟨other, hasks, hs⟩ | ⟨other, name, expires, hname, hp, -, -, hs⟩
  · rw [hs.1, hs.2.2, hissued]
    omega
  · rw [hs.1, hs.2.2]
    show List.countP _ (b.heard settings u).issued +
      (((b.heard settings u).pendingPairing.put other (later + 300)) chat).toList.length ≤ _
    rw [hissued]
    by_cases hc : chat = other
    · rw [hc, Store.put_self, hasks.1]
      simp
    · rw [Store.put_of_ne _ hc]
      omega
  · rw [hs.1, hs.2.2]
    show List.countP _ ((b.heard settings u).issued ++ [_]) +
      ((b.heard settings u).pendingPairing chat).toList.length ≤ _
    rw [hissued, List.countP_append, List.countP_singleton]
    by_cases hc : other = chat
    · subst hc
      rw [heard_of_names hname, hp]
      simp [Bot.forget]
    · simp only [beq_iff_eq, hc, if_false]
      omega

theorem owed_played (events : List Event) (chat : Int) :
    (played secrets settings world link events).owed chat ≤ events.countP (Event.requests settings chat) := by
  induction events using List.reverseRecOn with
  | nil => exact Nat.zero_le _
  | append_singleton events e ih =>
    rw [played_snoc, List.countP_append, List.countP_singleton]
    generalize played secrets settings world link events = bot at ih ⊢
    cases e with
    | update u now later => exact (owed_handled bot u chat).trans (Nat.add_le_add_right ih _)
    | database auth => exact ih
    | restart =>
      have hkept : (bot.after secrets settings world link .restart).owed chat ≤ bot.owed chat :=
        Nat.le_add_right _ _
      exact hkept.trans ih

/-- In every run a chat gets at most as many codes as it asked for. -/
theorem codes_counted (secrets : Secrets) (settings : Settings) (world : World)
    (link : String → String → String) (events : List Event) (chat : Int) :
    (played secrets settings world link events).issued.countP (fun issue => issue.chatId == chat) ≤
      events.countP (Event.requests settings chat) :=
  (Nat.le_add_right _ _).trans (owed_played events chat)

end Runs

end Mnema.Telegram
