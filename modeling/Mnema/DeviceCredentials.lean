import Mnema.Auth

/-! What the rows of the two tables say of the calls that made them. A pairing code and a refresh
token are stored by their hash only, so a call is judged by the value that was drawn. -/

namespace Mnema

variable {s : Secrets} {a : Auth} {w : AuthWorld} {history : List AuthEvent} {e e' : AuthEvent}
  {now done : Time} {code refresh deviceId : String}

namespace AuthEvent

def Creates (e : AuthEvent) (code : String) : Prop := e.answer = .pairingCode code

def Exchanges (e : AuthEvent) (code : String) : Prop :=
  ∃ deviceName tokens, e.call = .exchangePairingCode code deviceName ∧ e.answer = .tokens tokens

def Rotates (e : AuthEvent) (refresh : String) : Prop :=
  ∃ tokens, e.call = .rotateRefreshToken refresh ∧ e.answer = .tokens tokens

def Revokes (e : AuthEvent) (deviceId : String) : Prop :=
  e.call = .revokeDevice deviceId ∧ e.answer = .revoked true

/-- The call answered with a refresh token for the device. -/
def Issues (e : AuthEvent) (deviceId refresh : String) : Prop :=
  ∃ tokens, e.answer = .tokens tokens ∧ tokens.deviceId = deviceId ∧ tokens.refreshToken = refresh

/-- The refresh token that the call issued to a device, with its time. -/
def issuedTo (e : AuthEvent) (deviceId : String) : Option (String × Time) :=
  match e.answer with
  | .tokens tokens => if tokens.deviceId = deviceId then some (tokens.refreshToken, e.now) else none
  | _ => none

theorem issues_of_issuedTo {t : Time} (h : e.issuedTo deviceId = some (refresh, t)) :
    e.Issues deviceId refresh := by
  unfold issuedTo at h
  split at h
  · rename_i tokens ha
    split at h
    · rename_i hd
      exact ⟨tokens, ha, hd, congrArg Prod.fst (Option.some.inj h)⟩
    · cases h
  · cases h

end AuthEvent

def AuthAnswer.IsRefused (answer : AuthAnswer) : Prop := ∃ error, answer = .refused error

/-- The last refresh token of a device, and when it was issued. -/
def lastIssued (deviceId : String) : List AuthEvent → Option (String × Time)
  | [] => none
  | e :: rest => (lastIssued deviceId rest).or (e.issuedTo deviceId)

theorem lastIssued_append (deviceId : String) (history : List AuthEvent) (e : AuthEvent) :
    lastIssued deviceId (history ++ [e]) = (e.issuedTo deviceId).or (lastIssued deviceId history) := by
  induction history with
  | nil => simp [lastIssued]
  | cons x rest ih => rw [List.cons_append, lastIssued, ih, lastIssued, Option.or_assoc]

/-- The last token of a device was issued to it. -/
theorem issues_of_lastIssued {t : Time} (h : lastIssued deviceId history = some (refresh, t)) :
    ∃ e ∈ history, e.Issues deviceId refresh := by
  induction history with
  | nil => cases h
  | cons x rest ih =>
    rw [lastIssued, Option.or_eq_some_iff] at h
    rcases h with h | ⟨_, h⟩
    · obtain ⟨e, he, hi⟩ := ih h
      exact ⟨e, List.mem_cons_of_mem _ he, hi⟩
    · exact ⟨x, List.mem_cons_self, AuthEvent.issues_of_issuedTo h⟩

/-! ### Values that were drawn -/

/-- The value is one of the first `n` draws. -/
def Secrets.Drawn (s : Secrets) (n : Nat) (value : String) : Prop := ∃ i < n, value = s.draw i

theorem Secrets.Drawn.mono {n m : Nat} {value : String} (h : s.Drawn n value) (hn : n ≤ m) :
    s.Drawn m value := by
  obtain ⟨i, hi, rfl⟩ := h
  exact ⟨i, hi.trans_le hn, rfl⟩

theorem Secrets.Drawn.ne {n i : Nat} {value : String} (h : s.Drawn n value) (hi : n ≤ i) :
    value ≠ s.draw i := by
  obtain ⟨j, hj, rfl⟩ := h
  intro heq
  have hij := s.draw_injective heq
  omega

theorem Secrets.drawn_draw (s : Secrets) {i n : Nat} (hi : i < n) : s.Drawn n (s.draw i) :=
  ⟨i, hi, rfl⟩

/-- A stored hash is that of a draw. -/
def Secrets.Hashed (s : Secrets) (n : Nat) (hash : Digest) : Prop :=
  ∃ value, s.Drawn n value ∧ hash = s.hash value

theorem Secrets.Hashed.mono {n m : Nat} {hash : Digest} (h : s.Hashed n hash) (hn : n ≤ m) :
    s.Hashed m hash := by
  obtain ⟨value, hv, rfl⟩ := h
  exact ⟨value, hv.mono hn, rfl⟩

theorem Secrets.Hashed.ne {n i : Nat} {hash : Digest} (h : s.Hashed n hash) (hi : n ≤ i) :
    hash ≠ s.hash (s.draw i) := by
  obtain ⟨value, hv, rfl⟩ := h
  exact fun heq => hv.ne hi (s.hash_injective heq)

theorem Secrets.Hashed.drawn {n : Nat} {value : String} (h : s.Hashed n (s.hash value)) :
    s.Drawn n value := by
  obtain ⟨other, ho, heq⟩ := h
  exact s.hash_injective heq ▸ ho

/-! ### Pairing codes -/

/-- What the pairing codes know of the history. -/
structure CodesSound (s : Secrets) (a : Auth) (history : List AuthEvent) : Prop where
  ids : ∀ row ∈ a.pairingCodes.rows, s.Drawn a.drawn row.id
  hashes : ∀ row ∈ a.pairingCodes.rows, s.Hashed a.drawn row.codeHash
  unique : ∀ row ∈ a.pairingCodes.rows, ∀ row' ∈ a.pairingCodes.rows,
    row.codeHash = row'.codeHash → row = row'
  created : ∀ e ∈ history, ∀ code, e.Creates code →
    ∃ row ∈ a.pairingCodes.rows, row.codeHash = s.hash code ∧ row.expiresAt = e.now + minutes 10
  exchanged : ∀ e ∈ history, ∀ code, e.Exchanges code →
    ∃ row ∈ a.pairingCodes.rows, row.codeHash = s.hash code ∧ row.consumedAt.isSome

/-- A call that neither creates nor exchanges a code. -/
theorem CodesSound.keep {a' : Auth} (h : CodesSound s a history)
    (hcodes : a'.pairingCodes = a.pairingCodes) (hdrawn : a.drawn ≤ a'.drawn)
    (hc : ∀ code, ¬e.Creates code) (hx : ∀ code, ¬e.Exchanges code) :
    CodesSound s a' (history ++ [e]) := by
  constructor
  · intro row hrow
    exact (h.ids row (hcodes ▸ hrow)).mono hdrawn
  · intro row hrow
    exact (h.hashes row (hcodes ▸ hrow)).mono hdrawn
  · rw [hcodes]
    exact h.unique
  · intro e' he' code hcreates
    rw [hcodes]
    rcases List.mem_append.mp he' with he' | he'
    · exact h.created e' he' code hcreates
    · exact absurd (List.mem_singleton.mp he' ▸ hcreates) (hc code)
  · intro e' he' code hexchanges
    rw [hcodes]
    rcases List.mem_append.mp he' with he' | he'
    · exact h.exchanged e' he' code hexchanges
    · exact absurd (List.mem_singleton.mp he' ▸ hexchanges) (hx code)

theorem CodesSound.create (h : CodesSound s a history) :
    CodesSound s (a.createPairingCode s now done).2
      (history ++ [⟨.createPairingCode, now, .pairingCode (a.createPairingCode s now done).1⟩]) := by
  let row₀ : FileProviderPairingCode :=
    { id := s.draw (a.drawn + 1), codeHash := s.hash (s.draw a.drawn), expiresAt := now + minutes 10,
      createdAt := done }
  have hfresh : row₀.id ∉ a.pairingCodes.rows.map (·.id) := by
    intro hmem
    obtain ⟨row, hrow, hid⟩ := List.mem_map.mp hmem
    exact (h.ids row hrow).ne (Nat.le_succ _) hid
  have hrows : (a.createPairingCode s now done).2.pairingCodes.rows = a.pairingCodes.rows ++ [row₀] := by
    show (a.pairingCodes.insert row₀).rows = _
    unfold Table.insert
    rw [dif_neg hfresh]
  have hold : ∀ row ∈ a.pairingCodes.rows, row.codeHash ≠ row₀.codeHash :=
    fun row hrow => (h.hashes row hrow).ne le_rfl
  have hdrawn : a.drawn ≤ (a.createPairingCode s now done).2.drawn := Nat.le_add_right _ _
  constructor
  · intro row hrow
    rw [hrows, List.mem_append, List.mem_singleton] at hrow
    rcases hrow with hrow | rfl
    · exact (h.ids row hrow).mono hdrawn
    · exact s.drawn_draw (Nat.lt_succ_self _)
  · intro row hrow
    rw [hrows, List.mem_append, List.mem_singleton] at hrow
    rcases hrow with hrow | rfl
    · exact (h.hashes row hrow).mono hdrawn
    · exact ⟨_, s.drawn_draw (Nat.lt_add_of_pos_right Nat.two_pos), rfl⟩
  · intro row hrow row' hrow' heq
    rw [hrows, List.mem_append, List.mem_singleton] at hrow hrow'
    rcases hrow with hrow | rfl
    · rcases hrow' with hrow' | rfl
      · exact h.unique row hrow row' hrow' heq
      · exact absurd heq (hold row hrow)
    · rcases hrow' with hrow' | rfl
      · exact absurd heq.symm (hold row' hrow')
      · rfl
  · intro e' he' code hcreates
    rw [hrows]
    rcases List.mem_append.mp he' with he' | he'
    · obtain ⟨row, hrow, hr⟩ := h.created e' he' code hcreates
      exact ⟨row, List.mem_append_left _ hrow, hr⟩
    · obtain rfl := List.mem_singleton.mp he'
      obtain rfl : s.draw a.drawn = code := AuthAnswer.pairingCode.inj hcreates
      exact ⟨row₀, List.mem_append_right _ (List.mem_singleton.mpr rfl), rfl, rfl⟩
  · intro e' he' code hexchanges
    rw [hrows]
    rcases List.mem_append.mp he' with he' | he'
    · obtain ⟨row, hrow, hr⟩ := h.exchanged e' he' code hexchanges
      exact ⟨row, List.mem_append_left _ hrow, hr⟩
    · obtain rfl := List.mem_singleton.mp he'
      obtain ⟨_, _, hcall, _⟩ := hexchanges
      cases hcall

/-- What an exchange that succeeds finds, and what it leaves. -/
theorem exchangePairingCode_eq_ok {deviceName : String} {tokens : IssuedTokens} {a' : Auth}
    (h : a.exchangePairingCode s code deviceName now done = .ok (tokens, a')) :
    ∃ pairing, a.pairingCodes.first (fun row => row.codeHash == s.hash code) = some pairing ∧
      pairing.consumedAt = none ∧ now < pairing.expiresAt ∧
      tokens.refreshToken = s.draw a.drawn ∧ tokens.deviceId = s.draw (a.drawn + 1) ∧
      a' = { pairingCodes := a.pairingCodes.put { pairing with consumedAt := some now }
             devices := a.devices.insert
              { id := s.draw (a.drawn + 1), name := storedName deviceName,
                refreshTokenHash := s.hash (s.draw a.drawn), refreshExpiresAt := now + days 90,
                createdAt := done }
             drawn := a.drawn + 2 } := by
  unfold Auth.exchangePairingCode at h
  split at h
  · cases h
  · rename_i pairing hfirst
    split at h
    · cases h
    · rename_i hfree
      cases h
      rw [not_or, Bool.not_eq_true, Option.isSome_eq_false_iff, Option.isNone_iff_eq_none] at hfree
      exact ⟨pairing, hfirst, hfree.1, Int.not_le.mp hfree.2, rfl, rfl, rfl⟩

theorem CodesSound.exchange {deviceName : String} {tokens : IssuedTokens} {a' : Auth}
    (h : CodesSound s a history)
    (hx : a.exchangePairingCode s code deviceName now done = .ok (tokens, a')) :
    CodesSound s a'
      (history ++ [⟨.exchangePairingCode code deviceName, now, .tokens tokens⟩]) := by
  obtain ⟨pairing, hfirst, _, _, _, _, rfl⟩ := exchangePairingCode_eq_ok hx
  have hmem : pairing ∈ a.pairingCodes.rows := Table.mem_of_get (Table.get_of_first hfirst)
  have hhash : pairing.codeHash = s.hash code := by simpa using Table.pred_of_first hfirst
  let row₀ : FileProviderPairingCode := { pairing with consumedAt := some now }
  have hput : ∀ row ∈ a.pairingCodes.rows, ∃ row' ∈ (a.pairingCodes.put row₀).rows,
      row'.codeHash = row.codeHash ∧ row'.expiresAt = row.expiresAt ∧
      (row.consumedAt.isSome → row'.consumedAt.isSome) := by
    intro row hrow
    refine ⟨if row.id = row₀.id then row₀ else row, List.mem_map.mpr ⟨row, hrow, rfl⟩, ?_⟩
    split
    · rename_i hid
      have hget : a.pairingCodes.get pairing.id = some row := by
        rw [show pairing.id = row.id from hid.symm]
        exact Table.get_of_mem hrow
      have heq : row = pairing := Option.some.inj (hget.symm.trans (Table.get_of_mem (r := pairing) hmem))
      subst heq
      exact ⟨rfl, rfl, fun _ => rfl⟩
    · exact ⟨rfl, rfl, fun hc => hc⟩
  have hnew : row₀ ∈ (a.pairingCodes.put row₀).rows :=
    Table.mem_of_get (Table.get_put_self (r := row₀) (Table.get_of_mem (r := pairing) hmem))
  constructor
  · intro row hrow
    rcases Table.mem_put hrow with rfl | ⟨hrow, _⟩
    · exact (h.ids pairing hmem).mono (Nat.le_add_right _ _)
    · exact (h.ids row hrow).mono (Nat.le_add_right _ _)
  · intro row hrow
    rcases Table.mem_put hrow with rfl | ⟨hrow, _⟩
    · exact (h.hashes pairing hmem).mono (Nat.le_add_right _ _)
    · exact (h.hashes row hrow).mono (Nat.le_add_right _ _)
  · intro row hrow row' hrow' heq
    rcases Table.mem_put hrow with rfl | ⟨hrow, hne⟩
    · rcases Table.mem_put hrow' with rfl | ⟨hrow', hne'⟩
      · rfl
      · exact absurd (congrArg FileProviderPairingCode.id (h.unique pairing hmem row' hrow' heq)).symm hne'
    · rcases Table.mem_put hrow' with rfl | ⟨hrow', hne'⟩
      · exact absurd (congrArg FileProviderPairingCode.id (h.unique row hrow pairing hmem heq)) hne
      · exact h.unique row hrow row' hrow' heq
  · intro e' he' code' hcreates
    rcases List.mem_append.mp he' with he' | he'
    · obtain ⟨row, hrow, hc, ht⟩ := h.created e' he' code' hcreates
      obtain ⟨row', hrow', hc', ht', _⟩ := hput row hrow
      exact ⟨row', hrow', hc'.trans hc, ht'.trans ht⟩
    · obtain rfl := List.mem_singleton.mp he'
      cases hcreates
  · intro e' he' code' hexchanges
    rcases List.mem_append.mp he' with he' | he'
    · obtain ⟨row, hrow, hc, ht⟩ := h.exchanged e' he' code' hexchanges
      obtain ⟨row', hrow', hc', _, ht'⟩ := hput row hrow
      exact ⟨row', hrow', hc'.trans hc, ht' ht⟩
    · obtain rfl := List.mem_singleton.mp he'
      obtain ⟨_, _, hcall, _⟩ := hexchanges
      cases hcall
      exact ⟨row₀, hnew, hhash, rfl⟩

/-- The row of a code answers for it. -/
theorem CodesSound.refused (h : CodesSound s a history) {row : FileProviderPairingCode}
    (hrow : row ∈ a.pairingCodes.rows) (hhash : row.codeHash = s.hash code) (deviceName : String)
    (now done : Time) (hclosed : row.consumedAt.isSome ∨ row.expiresAt ≤ now) :
    ∃ error, a.exchangePairingCode s code deviceName now done = .error error := by
  cases hx : a.exchangePairingCode s code deviceName now done with
  | error error => exact ⟨error, rfl⟩
  | ok result =>
    obtain ⟨tokens, a'⟩ := result
    obtain ⟨pairing, hfirst, hfree, hlive, _⟩ := exchangePairingCode_eq_ok hx
    have hmem : pairing ∈ a.pairingCodes.rows := Table.mem_of_get (Table.get_of_first hfirst)
    have hcode : pairing.codeHash = s.hash code := by simpa using Table.pred_of_first hfirst
    obtain rfl := h.unique pairing hmem row hrow (hcode.trans hhash.symm)
    rcases hclosed with hclosed | hclosed
    · rw [hfree] at hclosed
      cases hclosed
    · exact absurd hclosed (Int.not_le.mpr hlive)

/-! ### Devices -/

/-- What the devices know of the history. -/
structure DevicesSound (s : Secrets) (a : Auth) (history : List AuthEvent) : Prop where
  ids : ∀ row ∈ a.devices.rows, s.Drawn a.drawn row.id
  latest : ∀ row ∈ a.devices.rows, ∃ refresh t, lastIssued row.id history = some (refresh, t) ∧
    row.refreshTokenHash = s.hash refresh ∧ row.refreshExpiresAt = t + days 90
  issued : ∀ e ∈ history, ∀ deviceId refresh, e.Issues deviceId refresh → s.Drawn a.drawn refresh
  owned : ∀ e ∈ history, ∀ e' ∈ history, ∀ deviceId deviceId' refresh, e.Issues deviceId refresh →
    e'.Issues deviceId' refresh → deviceId = deviceId'
  rotated : ∀ e ∈ history, ∀ refresh, e.Rotates refresh → s.Drawn a.drawn refresh ∧
    ∀ row ∈ a.devices.rows, row.refreshTokenHash ≠ s.hash refresh
  revoked : ∀ e ∈ history, ∀ deviceId, e.Revokes deviceId →
    ∃ row ∈ a.devices.rows, row.id = deviceId ∧ row.revokedAt.isSome

theorem DevicesSound.hashed (h : DevicesSound s a history) {row : FileProviderDevice}
    (hrow : row ∈ a.devices.rows) : s.Hashed a.drawn row.refreshTokenHash := by
  obtain ⟨refresh, t, hlast, hhash, _⟩ := h.latest row hrow
  obtain ⟨e, he, hi⟩ := issues_of_lastIssued hlast
  exact ⟨refresh, h.issued e he _ _ hi, hhash⟩

/-- The device with a hash is the one that its token was issued to. -/
theorem DevicesSound.owner (h : DevicesSound s a history) {row : FileProviderDevice}
    (hrow : row ∈ a.devices.rows) (hhash : row.refreshTokenHash = s.hash refresh) (he : e ∈ history)
    (hi : e.Issues deviceId refresh) : row.id = deviceId := by
  obtain ⟨last, t, hlast, hlasthash, _⟩ := h.latest row hrow
  obtain rfl : last = refresh := s.hash_injective (hlasthash.symm.trans hhash)
  obtain ⟨e', he', hi'⟩ := issues_of_lastIssued hlast
  exact h.owned e' he' e he _ _ _ hi' hi

/-- The rows that follow those of `a`: each keeps its identifier, its token and its revocation. -/
structure DeviceRows (a a' : Auth) : Prop where
  drawn : a.drawn ≤ a'.drawn
  back : ∀ row' ∈ a'.devices.rows, ∃ row ∈ a.devices.rows, row'.id = row.id ∧
    row'.refreshTokenHash = row.refreshTokenHash ∧ row'.refreshExpiresAt = row.refreshExpiresAt
  forth : ∀ row ∈ a.devices.rows, ∃ row' ∈ a'.devices.rows, row'.id = row.id ∧
    (row.revokedAt.isSome → row'.revokedAt.isSome)

/-- A call that answers with no tokens. -/
theorem DevicesSound.keep {a' : Auth} (h : DevicesSound s a history) (hrows : DeviceRows a a')
    (ht : ∀ tokens, e.answer ≠ .tokens tokens)
    (hr : ∀ deviceId, e.Revokes deviceId → ∃ row ∈ a'.devices.rows, row.id = deviceId ∧
      row.revokedAt.isSome) : DevicesSound s a' (history ++ [e]) := by
  have hnone : ∀ deviceId, e.issuedTo deviceId = none := by
    intro deviceId
    unfold AuthEvent.issuedTo
    split
    · rename_i tokens ha
      exact absurd ha (ht tokens)
    · rfl
  have hissues : ∀ e' ∈ history ++ [e], ∀ deviceId refresh, e'.Issues deviceId refresh → e' ∈ history := by
    intro e' he' deviceId refresh hi
    rcases List.mem_append.mp he' with he' | he'
    · exact he'
    · obtain rfl := List.mem_singleton.mp he'
      exact absurd hi.choose_spec.1 (ht _)
  constructor
  · intro row' hrow'
    obtain ⟨row, hrow, hid, _⟩ := hrows.back row' hrow'
    exact hid ▸ (h.ids row hrow).mono hrows.drawn
  · intro row' hrow'
    obtain ⟨row, hrow, hid, hhash, hexpires⟩ := hrows.back row' hrow'
    rw [lastIssued_append, hnone, Option.none_or, hid, hhash, hexpires]
    exact h.latest row hrow
  · intro e' he' deviceId refresh hi
    exact (h.issued e' (hissues e' he' _ _ hi) _ _ hi).mono hrows.drawn
  · intro e₁ he₁ e₂ he₂ d₁ d₂ refresh h₁ h₂
    exact h.owned e₁ (hissues e₁ he₁ _ _ h₁) e₂ (hissues e₂ he₂ _ _ h₂) _ _ _ h₁ h₂
  · intro e' he' refresh hrotates
    rcases List.mem_append.mp he' with he' | he'
    · obtain ⟨hdrawn, hne⟩ := h.rotated e' he' refresh hrotates
      refine ⟨hdrawn.mono hrows.drawn, fun row' hrow' => ?_⟩
      obtain ⟨row, hrow, _, hhash, _⟩ := hrows.back row' hrow'
      rw [hhash]
      exact hne row hrow
    · obtain rfl := List.mem_singleton.mp he'
      exact absurd hrotates.choose_spec.2 (ht _)
  · intro e' he' deviceId hrevokes
    rcases List.mem_append.mp he' with he' | he'
    · obtain ⟨row, hrow, hid, hs⟩ := h.revoked e' he' deviceId hrevokes
      obtain ⟨row', hrow', hid', hs'⟩ := hrows.forth row hrow
      exact ⟨row', hrow', hid'.trans hid, hs' hs⟩
    · obtain rfl := List.mem_singleton.mp he'
      exact hr deviceId hrevokes

theorem deviceRows_refl {a' : Auth} (hdevices : a'.devices = a.devices) (hdrawn : a.drawn ≤ a'.drawn) :
    DeviceRows a a' := by
  refine ⟨hdrawn, fun row' hrow' => ⟨row', hdevices ▸ hrow', rfl, rfl, rfl⟩, fun row hrow => ?_⟩
  rw [hdevices]
  exact ⟨row, hrow, rfl, fun hs => hs⟩

/-- One row is replaced by one with the same identifier and the same token. -/
theorem deviceRows_put {row new : FileProviderDevice} (hrow : row ∈ a.devices.rows)
    (hid : new.id = row.id) (hhash : new.refreshTokenHash = row.refreshTokenHash)
    (hexpires : new.refreshExpiresAt = row.refreshExpiresAt)
    (hrevoked : row.revokedAt.isSome → new.revokedAt.isSome) :
    DeviceRows a { a with devices := a.devices.put new } := by
  refine ⟨le_rfl, fun row' hrow' => ?_, fun other hother => ?_⟩
  · rcases Table.mem_put hrow' with rfl | ⟨hrow', _⟩
    · exact ⟨row, hrow, hid, hhash, hexpires⟩
    · exact ⟨row', hrow', rfl, rfl, rfl⟩
  · refine ⟨if other.id = new.id then new else other, List.mem_map.mpr ⟨other, hother, rfl⟩, ?_⟩
    split
    · rename_i heq
      have hget : a.devices.get row.id = some other := by
        rw [← hid, ← heq]
        exact Table.get_of_mem hother
      obtain rfl : other = row := Option.some.inj (hget.symm.trans (Table.get_of_mem hrow))
      exact ⟨hid, hrevoked⟩
    · exact ⟨rfl, fun hs => hs⟩

/-- A refresh token that was drawn for this call is issued to a device. -/
theorem DevicesSound.issue {a' : Auth} {tokens : IssuedTokens} (h : DevicesSound s a history)
    (row₀ : FileProviderDevice) (ha : e.answer = .tokens tokens) (hdrawn : a.drawn < a'.drawn)
    (htoken : tokens.refreshToken = s.draw a.drawn) (hid₀ : row₀.id = tokens.deviceId)
    (hdrawn₀ : s.Drawn a'.drawn row₀.id) (hhash₀ : row₀.refreshTokenHash = s.hash (s.draw a.drawn))
    (hexpires₀ : row₀.refreshExpiresAt = e.now + days 90)
    (hback : ∀ row' ∈ a'.devices.rows, row' = row₀ ∨ row' ∈ a.devices.rows ∧ row'.id ≠ row₀.id)
    (hforth : ∀ row ∈ a.devices.rows, row.revokedAt.isSome → row ∈ a'.devices.rows)
    (hrotates : ∀ refresh, e.Rotates refresh → s.Hashed a.drawn (s.hash refresh) ∧
      ∀ row ∈ a'.devices.rows, row ≠ row₀ → row.refreshTokenHash ≠ s.hash refresh) :
    DevicesSound s a' (history ++ [e]) := by
  have hissues : ∀ deviceId refresh, e.Issues deviceId refresh →
      deviceId = tokens.deviceId ∧ refresh = s.draw a.drawn := by
    rintro deviceId refresh ⟨tokens', ha', rfl, rfl⟩
    obtain rfl := AuthAnswer.tokens.inj (ha.symm.trans ha')
    exact ⟨rfl, htoken⟩
  have hto : ∀ deviceId, e.issuedTo deviceId =
      if tokens.deviceId = deviceId then some (s.draw a.drawn, e.now) else none := by
    intro deviceId
    unfold AuthEvent.issuedTo
    rw [ha, ← htoken]
  have hrevokes : ∀ deviceId, ¬e.Revokes deviceId := by
    rintro deviceId ⟨_, ha'⟩
    cases ha.symm.trans ha'
  constructor
  · intro row' hrow'
    rcases hback row' hrow' with rfl | ⟨hrow', _⟩
    · exact hdrawn₀
    · exact (h.ids row' hrow').mono hdrawn.le
  · intro row' hrow'
    rw [lastIssued_append, hto]
    rcases hback row' hrow' with rfl | ⟨hrow', hne⟩
    · rw [if_pos hid₀.symm]
      exact ⟨_, _, rfl, hhash₀, hexpires₀⟩
    · rw [if_neg fun heq => hne (heq.symm.trans hid₀.symm), Option.none_or]
      exact h.latest row' hrow'
  · intro e' he' deviceId refresh hi
    rcases List.mem_append.mp he' with he' | he'
    · exact (h.issued e' he' _ _ hi).mono hdrawn.le
    · obtain rfl := List.mem_singleton.mp he'
      obtain ⟨_, rfl⟩ := hissues _ _ hi
      exact s.drawn_draw hdrawn
  · have hnew : ∀ e' ∈ history, ∀ deviceId refresh, e'.Issues deviceId refresh →
        refresh ≠ s.draw a.drawn :=
      fun e' he' _ _ hi => (h.issued e' he' _ _ hi).ne le_rfl
    intro e₁ he₁ e₂ he₂ d₁ d₂ refresh h₁ h₂
    rcases List.mem_append.mp he₁ with hold₁ | hlast₁
    · rcases List.mem_append.mp he₂ with hold₂ | hlast₂
      · exact h.owned e₁ hold₁ e₂ hold₂ _ _ _ h₁ h₂
      · obtain rfl := List.mem_singleton.mp hlast₂
        exact absurd (hissues _ _ h₂).2 (hnew e₁ hold₁ _ _ h₁)
    · obtain rfl := List.mem_singleton.mp hlast₁
      rcases List.mem_append.mp he₂ with hold₂ | hlast₂
      · exact absurd (hissues _ _ h₁).2 (hnew e₂ hold₂ _ _ h₂)
      · obtain rfl := List.mem_singleton.mp hlast₂
        exact (hissues _ _ h₁).1.trans (hissues _ _ h₂).1.symm
  · intro e' he' refresh hr
    have hnot : s.Hashed a.drawn (s.hash refresh) → row₀.refreshTokenHash ≠ s.hash refresh := by
      intro hh heq
      exact hh.ne le_rfl (heq.symm.trans hhash₀)
    rcases List.mem_append.mp he' with he' | he'
    · obtain ⟨hd, hne⟩ := h.rotated e' he' refresh hr
      refine ⟨hd.mono hdrawn.le, fun row' hrow' => ?_⟩
      rcases hback row' hrow' with rfl | ⟨hrow', _⟩
      · exact hnot ⟨refresh, hd, rfl⟩
      · exact hne row' hrow'
    · obtain rfl := List.mem_singleton.mp he'
      obtain ⟨hh, hne⟩ := hrotates refresh hr
      refine ⟨hh.drawn.mono hdrawn.le, fun row' hrow' => ?_⟩
      by_cases heq : row' = row₀
      · exact heq ▸ hnot hh
      · exact hne row' hrow' heq
  · intro e' he' deviceId hr
    rcases List.mem_append.mp he' with he' | he'
    · obtain ⟨row, hrow, hid, hs⟩ := h.revoked e' he' deviceId hr
      exact ⟨row, hforth row hrow hs, hid, hs⟩
    · exact absurd (List.mem_singleton.mp he' ▸ hr) (hrevokes deviceId)

/-- No two devices have one token. -/
theorem DevicesSound.unique (h : DevicesSound s a history) {row row' : FileProviderDevice}
    (hrow : row ∈ a.devices.rows) (hrow' : row' ∈ a.devices.rows)
    (heq : row.refreshTokenHash = row'.refreshTokenHash) : row = row' := by
  obtain ⟨refresh, t, hlast, hhash, _⟩ := h.latest row' hrow'
  obtain ⟨e, he, hi⟩ := issues_of_lastIssued hlast
  have hid : row.id = row'.id := h.owner hrow (heq.trans hhash) he hi
  have hget := Table.get_of_mem hrow
  rw [hid] at hget
  exact Option.some.inj (hget.symm.trans (Table.get_of_mem hrow'))

/-- What a rotation that succeeds finds, and what it leaves. -/
theorem rotateRefreshToken_eq_ok {tokens : IssuedTokens} {a' : Auth}
    (h : a.rotateRefreshToken s refresh now done = .ok (tokens, a')) :
    ∃ device ∈ a.devices.rows, device.refreshTokenHash = s.hash refresh ∧ device.revokedAt = none ∧
      now < device.refreshExpiresAt ∧ tokens.refreshToken = s.draw a.drawn ∧
      tokens.deviceId = device.id ∧
      a' = { a with
        devices := a.devices.put { device with
          refreshTokenHash := s.hash (s.draw a.drawn)
          refreshExpiresAt := now + days 90
          lastUsedAt := some now }
        drawn := a.drawn + 1 } := by
  unfold Auth.rotateRefreshToken at h
  split at h
  · cases h
  · rename_i device hfirst
    have hhash : device.refreshTokenHash = s.hash refresh := by simpa using Table.pred_of_first hfirst
    split at h
    · cases h
    · rename_i hlive
      cases h
      rw [not_or, Bool.not_eq_true, Option.isSome_eq_false_iff, Option.isNone_iff_eq_none] at hlive
      exact ⟨device, Table.mem_of_get (Table.get_of_first hfirst), hhash, hlive.1,
        Int.not_le.mp hlive.2, rfl, rfl, rfl⟩

theorem DevicesSound.rotate {tokens : IssuedTokens} {a' : Auth} (h : DevicesSound s a history)
    (hr : a.rotateRefreshToken s refresh now done = .ok (tokens, a')) :
    DevicesSound s a' (history ++ [⟨.rotateRefreshToken refresh, now, .tokens tokens⟩]) := by
  obtain ⟨device, hmem, hhash, hlive, _, htoken, hid, rfl⟩ := rotateRefreshToken_eq_ok hr
  let row₀ : FileProviderDevice := { device with
    refreshTokenHash := s.hash (s.draw a.drawn)
    refreshExpiresAt := now + days 90
    lastUsedAt := some now }
  refine h.issue row₀ rfl (Nat.lt_succ_self _) htoken hid.symm
    ((h.ids device hmem).mono (Nat.le_succ _)) rfl rfl (fun row' hrow' => Table.mem_put hrow')
    (fun row hrow hs => ?_) ?_
  · refine List.mem_map.mpr ⟨row, hrow, if_neg fun heq => ?_⟩
    have hget : a.devices.get device.id = some row := by
      rw [show device.id = row.id from heq.symm]
      exact Table.get_of_mem hrow
    obtain rfl : row = device := Option.some.inj (hget.symm.trans (Table.get_of_mem hmem))
    rw [hlive] at hs
    cases hs
  · rintro refresh' ⟨_, hcall, _⟩
    obtain rfl := AuthCall.rotateRefreshToken.inj hcall
    refine ⟨hhash ▸ h.hashed hmem, fun row hrow hne heq => ?_⟩
    rcases Table.mem_put hrow with rfl | ⟨hrow, hid'⟩
    · exact hne rfl
    · obtain rfl := h.unique hrow hmem (heq.trans hhash.symm)
      exact hid' rfl

theorem DevicesSound.exchange {deviceName : String} {tokens : IssuedTokens} {a' : Auth}
    (h : DevicesSound s a history)
    (hx : a.exchangePairingCode s code deviceName now done = .ok (tokens, a')) :
    DevicesSound s a' (history ++ [⟨.exchangePairingCode code deviceName, now, .tokens tokens⟩]) := by
  obtain ⟨_, _, _, _, htoken, hid, rfl⟩ := exchangePairingCode_eq_ok hx
  let row₀ : FileProviderDevice :=
    { id := s.draw (a.drawn + 1), name := storedName deviceName,
      refreshTokenHash := s.hash (s.draw a.drawn), refreshExpiresAt := now + days 90, createdAt := done }
  have hfresh : row₀.id ∉ a.devices.rows.map (·.id) := by
    intro hmem
    obtain ⟨row, hrow, heq⟩ := List.mem_map.mp hmem
    exact (h.ids row hrow).ne (Nat.le_succ _) heq
  have hrows : (a.devices.insert row₀).rows = a.devices.rows ++ [row₀] := by
    unfold Table.insert
    rw [dif_neg hfresh]
  refine h.issue row₀ rfl (Nat.lt_add_of_pos_right Nat.two_pos) htoken hid.symm
    (s.drawn_draw (Nat.lt_succ_self _)) rfl rfl (fun row' hrow' => ?_) (fun row hrow _ => ?_) ?_
  · have hmem : row' ∈ (a.devices.insert row₀).rows := hrow'
    rw [hrows, List.mem_append, List.mem_singleton] at hmem
    rcases hmem with hmem | hmem
    · exact .inr ⟨hmem, (h.ids row' hmem).ne (Nat.le_succ _)⟩
    · exact .inl hmem
  · show row ∈ (a.devices.insert row₀).rows
    rw [hrows]
    exact List.mem_append_left _ hrow
  · rintro refresh ⟨_, hcall, _⟩
    cases hcall

theorem verifyAccessToken_eq_ok {token : Jwt} {device : FileProviderDevice} {a' : Auth}
    (h : a.verifyAccessToken s token now done = .ok (device, a')) :
    ∃ claims row, token.claims = some claims ∧ row ∈ a.devices.rows ∧ row.id = claims.sub ∧
      row.revokedAt = none ∧ device = { row with lastUsedAt := some done } ∧
      a' = { a with devices := a.devices.put { row with lastUsedAt := some done } } := by
  unfold Auth.verifyAccessToken at h
  split at h
  · cases h
  · rename_i claims hclaims
    split at h
    · cases h
    · split at h
      · cases h
      · rename_i row hrow
        split at h
        · cases h
        · rename_i hlive
          cases h
          rw [Bool.not_eq_true, Option.isSome_eq_false_iff, Option.isNone_iff_eq_none] at hlive
          exact ⟨claims, row, s.decode_claims hclaims, Table.mem_of_get hrow,
            Table.key_of_get hrow, hlive, rfl, rfl⟩

/-- A device after it was used or revoked. -/
theorem DevicesSound.revoke (h : DevicesSound s a history) :
    DevicesSound s (a.revokeDevice deviceId now).2
      (history ++ [⟨.revokeDevice deviceId, now, .revoked (a.revokeDevice deviceId now).1⟩]) := by
  unfold Auth.revokeDevice
  split
  · refine h.keep (deviceRows_refl rfl le_rfl) (fun _ => AuthAnswer.noConfusion) ?_
    rintro deviceId' ⟨_, ha⟩
    cases ha
  · rename_i device hget
    have hmem := Table.mem_of_get hget
    have hid := Table.key_of_get hget
    have hrows : DeviceRows a { a with devices := a.devices.put { device with revokedAt := some now } } :=
      deviceRows_put hmem rfl rfl rfl fun _ => rfl
    refine h.keep hrows (fun _ => AuthAnswer.noConfusion) ?_
    rintro deviceId' ⟨hcall, _⟩
    obtain rfl := AuthCall.revokeDevice.inj hcall
    exact ⟨_, Table.mem_of_get (Table.get_put_self (Table.get_of_mem (r := device) hmem)), hid, rfl⟩

/-! ### Every call -/

/-- What both tables know of the history. -/
structure AuthSound (s : Secrets) (w : AuthWorld) : Prop where
  codes : CodesSound s w.auth w.history
  devices : DevicesSound s w.auth w.history

theorem authSound_start (now : Time) : AuthSound s ⟨{}, now, []⟩ := by
  constructor
  · constructor <;> intro x hx <;> cases hx
  · constructor <;> intro x hx <;> cases hx

/-- A refused call leaves everything as it is. -/
theorem AuthSound.refused (h : AuthSound s w) (call : AuthCall) (now : Time) (error : PyError) :
    CodesSound s w.auth (w.history ++ [⟨call, now, .refused error⟩]) ∧
      DevicesSound s w.auth (w.history ++ [⟨call, now, .refused error⟩]) := by
  constructor
  · refine h.codes.keep rfl le_rfl (fun code hc => AuthAnswer.noConfusion hc) ?_
    rintro code ⟨_, _, _, ha⟩
    cases ha
  · refine h.devices.keep (deviceRows_refl rfl le_rfl) (fun _ => AuthAnswer.noConfusion) ?_
    rintro deviceId ⟨_, ha⟩
    cases ha

theorem AuthSound.after (h : AuthSound s w) (call : AuthCall) (now done : Time) :
    AuthSound s (w.after s call now done) := by
  cases call with
  | createPairingCode =>
    refine ⟨h.codes.create, h.devices.keep (deviceRows_refl rfl (Nat.le_add_right _ _))
      (fun _ => AuthAnswer.noConfusion) ?_⟩
    rintro deviceId ⟨hcall, _⟩
    cases hcall
  | exchangePairingCode code deviceName =>
    cases hx : w.auth.exchangePairingCode s code deviceName now done with
    | ok result =>
      obtain ⟨tokens, a'⟩ := result
      have hcodes := h.codes.exchange hx
      have hdevices := h.devices.exchange hx
      constructor <;> simp only [AuthWorld.after, AuthWorld.answer, AuthCall.perform, hx]
      · exact hcodes
      · exact hdevices
    | error error =>
      have hboth := h.refused (.exchangePairingCode code deviceName) now error
      constructor <;> simp only [AuthWorld.after, AuthWorld.answer, AuthCall.perform, hx]
      · exact hboth.1
      · exact hboth.2
  | rotateRefreshToken refresh =>
    cases hr : w.auth.rotateRefreshToken s refresh now done with
    | ok result =>
      obtain ⟨tokens, a'⟩ := result
      have hdevices := h.devices.rotate hr
      obtain ⟨device, _, _, _, _, _, _, heq⟩ := rotateRefreshToken_eq_ok hr
      have hcodes : CodesSound s a' (w.history ++
          [⟨.rotateRefreshToken refresh, now, .tokens tokens⟩]) := by
        refine h.codes.keep (heq ▸ rfl) (heq ▸ Nat.le_succ _) (fun code hc => AuthAnswer.noConfusion hc) ?_
        rintro code ⟨_, _, hcall, _⟩
        cases hcall
      constructor <;> simp only [AuthWorld.after, AuthWorld.answer, AuthCall.perform, hr]
      · exact hcodes
      · exact hdevices
    | error error =>
      have hboth := h.refused (.rotateRefreshToken refresh) now error
      constructor <;> simp only [AuthWorld.after, AuthWorld.answer, AuthCall.perform, hr]
      · exact hboth.1
      · exact hboth.2
  | verifyAccessToken token =>
    cases hv : w.auth.verifyAccessToken s token now done with
    | ok result =>
      obtain ⟨used, a'⟩ := result
      obtain ⟨claims, row, _, hrow, _, _, _, heq⟩ := verifyAccessToken_eq_ok hv
      have hrows : DeviceRows w.auth a' := heq ▸ deviceRows_put hrow rfl rfl rfl fun hs => hs
      constructor <;> simp only [AuthWorld.after, AuthWorld.answer, AuthCall.perform, hv]
      · refine h.codes.keep (heq ▸ rfl) hrows.drawn (fun code hc => AuthAnswer.noConfusion hc) ?_
        rintro code ⟨_, _, hcall, _⟩
        cases hcall
      · refine h.devices.keep hrows (fun _ => AuthAnswer.noConfusion) ?_
        rintro deviceId ⟨hcall, _⟩
        cases hcall
    | error error =>
      have hboth := h.refused (.verifyAccessToken token) now error
      constructor <;> simp only [AuthWorld.after, AuthWorld.answer, AuthCall.perform, hv]
      · exact hboth.1
      · exact hboth.2
  | revokeDevice deviceId =>
    refine ⟨?_, h.devices.revoke⟩
    have hcodes : (w.auth.revokeDevice deviceId now).2.pairingCodes = w.auth.pairingCodes ∧
        w.auth.drawn ≤ (w.auth.revokeDevice deviceId now).2.drawn := by
      unfold Auth.revokeDevice
      split
      · exact ⟨rfl, le_rfl⟩
      · exact ⟨rfl, le_rfl⟩
    refine h.codes.keep hcodes.1 hcodes.2 (fun code hc => AuthAnswer.noConfusion hc) ?_
    rintro code ⟨_, _, hcall, _⟩
    cases hcall

theorem AuthRun.sound (h : AuthRun s w) : AuthSound s w := by
  induction h with
  | start now => exact authSound_start now
  | call _ call _ _ ih => exact ih.after call _ _

theorem refused_of_exchange {deviceName : String} {error : PyError}
    (h : w.auth.exchangePairingCode s code deviceName now done = .error error) :
    (w.answer s (.exchangePairingCode code deviceName) now done).IsRefused := by
  refine ⟨error, ?_⟩
  simp only [AuthWorld.answer, AuthCall.perform, h]

/-- A rotation is refused, or the token is that of a live device. -/
theorem rotate_answer (s : Secrets) (w : AuthWorld) (refresh : String) (now done : Time) :
    (w.answer s (.rotateRefreshToken refresh) now done).IsRefused ∨
      ∃ tokens, ∃ device ∈ w.auth.devices.rows,
        w.answer s (.rotateRefreshToken refresh) now done = .tokens tokens ∧
        tokens.deviceId = device.id ∧ device.refreshTokenHash = s.hash refresh ∧
        device.revokedAt = none ∧ now < device.refreshExpiresAt := by
  cases hr : w.auth.rotateRefreshToken s refresh now done with
  | error error =>
    refine .inl ⟨error, ?_⟩
    simp only [AuthWorld.answer, AuthCall.perform, hr]
  | ok result =>
    obtain ⟨tokens, a'⟩ := result
    obtain ⟨device, hmem, hhash, hlive, hexpires, _, hid, _⟩ :=
      rotateRefreshToken_eq_ok hr
    refine .inr ⟨tokens, device, hmem, ?_, hid, hhash, hlive, hexpires⟩
    simp only [AuthWorld.answer, AuthCall.perform, hr]

/-- What holds of the next call, at any time. -/
structure Credentials (s : Secrets) (w : AuthWorld) (now done : Time) : Prop where
  codeOnce : ∀ code deviceName, (∃ e ∈ w.history, e.Exchanges code) →
    (w.answer s (.exchangePairingCode code deviceName) now done).IsRefused
  codeExpires : ∀ e ∈ w.history, ∀ code deviceName, e.Creates code → e.now + minutes 10 ≤ now →
    (w.answer s (.exchangePairingCode code deviceName) now done).IsRefused
  tokenOnce : ∀ refresh, (∃ e ∈ w.history, e.Rotates refresh) →
    (w.answer s (.rotateRefreshToken refresh) now done).IsRefused
  tokenLatest : ∀ refresh tokens, w.answer s (.rotateRefreshToken refresh) now done = .tokens tokens →
    (∃ t, lastIssued tokens.deviceId w.history = some (refresh, t) ∧ now < t + days 90) ∧
      ∀ e ∈ w.history, ∀ deviceId, e.Issues deviceId refresh → deviceId = tokens.deviceId
  revoked : ∀ deviceId, (∃ e ∈ w.history, e.Revokes deviceId) →
    (∀ e ∈ w.history, ∀ refresh, e.Issues deviceId refresh →
      (w.answer s (.rotateRefreshToken refresh) now done).IsRefused) ∧
    ∀ token claims, token.claims = some claims → claims.sub = deviceId →
      (w.answer s (.verifyAccessToken token) now done).IsRefused

theorem device_credentials (h : AuthRun s w) (now done : Time) : Credentials s w now done := by
  have hsound := h.sound
  constructor
  · rintro code deviceName ⟨e, he, hx⟩
    obtain ⟨row, hrow, hhash, hused⟩ := hsound.codes.exchanged e he code hx
    obtain ⟨error, herror⟩ := hsound.codes.refused hrow hhash deviceName now done (.inl hused)
    exact refused_of_exchange herror
  · intro e he code deviceName hcreates hlate
    obtain ⟨row, hrow, hhash, hexpires⟩ := hsound.codes.created e he code hcreates
    obtain ⟨error, herror⟩ := hsound.codes.refused hrow hhash deviceName now done
      (.inr (hexpires ▸ hlate))
    exact refused_of_exchange herror
  · rintro refresh ⟨e, he, hr⟩
    rcases rotate_answer s w refresh now done with hrefused | ⟨_, device, hmem, _, _, hhash, _⟩
    · exact hrefused
    · exact absurd hhash ((hsound.devices.rotated e he refresh hr).2 device hmem)
  · intro refresh tokens hanswer
    rcases rotate_answer s w refresh now done with ⟨error, herror⟩ |
      ⟨tokens', device, hmem, htokens, hid, hhash, _, hexpires⟩
    · cases hanswer.symm.trans herror
    · obtain rfl := AuthAnswer.tokens.inj (hanswer.symm.trans htokens)
      obtain ⟨last, t, hlast, hlasthash, ht⟩ := hsound.devices.latest device hmem
      obtain rfl := s.hash_injective (hlasthash.symm.trans hhash)
      refine ⟨⟨t, hid ▸ hlast, ht ▸ hexpires⟩, fun e he deviceId hi => ?_⟩
      exact (hsound.devices.owner hmem hhash he hi).symm.trans hid.symm
  · rintro deviceId ⟨e, he, hr⟩
    obtain ⟨row, hrow, hid, hgone⟩ := hsound.devices.revoked e he deviceId hr
    have hlive : ∀ device ∈ w.auth.devices.rows, device.id = deviceId → device.revokedAt ≠ none := by
      intro device hmem hdevice hnone
      have hget := Table.get_of_mem hrow
      rw [hid, ← hdevice] at hget
      obtain rfl := Option.some.inj (hget.symm.trans (Table.get_of_mem hmem))
      rw [hnone] at hgone
      cases hgone
    refine ⟨fun e' he' refresh hi => ?_, fun token claims hclaims hsub => ?_⟩
    · rcases rotate_answer s w refresh now done with hrefused | ⟨_, device, hmem, _, _, hhash, hnone, _⟩
      · exact hrefused
      · exact absurd hnone (hlive device hmem (hsound.devices.owner hmem hhash he' hi))
    · cases hv : w.auth.verifyAccessToken s token now done with
      | error error =>
        refine ⟨error, ?_⟩
        simp only [AuthWorld.answer, AuthCall.perform, hv]
      | ok result =>
        obtain ⟨used, a'⟩ := result
        obtain ⟨claims', device, hclaims', hmem, hdevice, hnone, _⟩ :=
          verifyAccessToken_eq_ok hv
        obtain rfl := Option.some.inj (hclaims.symm.trans hclaims')
        exact absurd hnone (hlive device hmem (hdevice.trans hsub))

/-- Draws of growing length, stored as they are, and tokens that are good for their key and time. -/
def plainSecrets : Secrets where
  key := "key"
  hash := id
  draw n := String.ofList (List.replicate n 'x')
  decode token key audience now := token.claims.filter fun claims =>
    token.key == key && claims.aud == audience && decide (claims.iat ≤ now) && decide (now < claims.exp)
  hash_injective := Function.injective_id
  draw_injective := by
    intro i j h
    have hlength := congrArg List.length (String.ofList_injective h)
    simpa using hlength
  decode_claims h := (Option.filter_eq_some_iff.mp h).1

/-- A code is exchanged, the refresh token rotated, and the device revoked. -/
def revokedDevice : AuthWorld :=
  let created := AuthWorld.after plainSecrets ⟨{}, 0, []⟩ .createPairingCode 0 0
  let exchanged := created.after plainSecrets (.exchangePairingCode (plainSecrets.draw 0) " phone ") 60 60
  let rotated := exchanged.after plainSecrets (.rotateRefreshToken (plainSecrets.draw 2)) 120 120
  rotated.after plainSecrets (.revokeDevice (plainSecrets.draw 3)) 180 180

example : revokedDevice.history.map (fun e => match e.answer with
    | .refused _ => false
    | _ => true) = [true, true, true, true] := by decide +kernel

theorem device_credentials_revoked : AuthRun plainSecrets revokedDevice ∧
    Credentials plainSecrets revokedDevice 240 240 := by
  have hrun : AuthRun plainSecrets revokedDevice :=
    .call (.call (.call (.call (.start 0) _ (by decide) (by decide)) _ (by decide) (by decide)) _
      (by decide) (by decide)) _ (by decide) (by decide)
  exact ⟨hrun, device_credentials hrun 240 240⟩

end Mnema
