import Mnema.PhoneClient

/-! Which of a phone's refresh tokens are alive. A rotation presents the stored token, so at most
one newer token is on its way to the keychain. -/

namespace Mnema.Phone

/-! ### Tokens that the server takes -/

section Live

variable {secrets : Secrets} {a : Auth} {token : String} {now done : Time} {w : AuthWorld}

/-- A device has this refresh token. -/
def Live (secrets : Secrets) (a : Auth) (token : String) : Prop :=
  ∃ row ∈ a.devices.rows, row.refreshTokenHash = secrets.hash token

theorem Live.insert {a' : Auth} (h : Live secrets a token) {row : FileProviderDevice}
    (ha : a'.devices = a.devices.insert row) : Live secrets a' token := by
  obtain ⟨own, hown, heq⟩ := h
  refine ⟨own, ?_, heq⟩
  rw [ha]
  unfold Table.insert
  split
  · exact hown
  · exact List.mem_append_left _ hown

theorem Live.put (h : Live secrets a token) {row new : FileProviderDevice} (hrow : row ∈ a.devices.rows)
    (hid : new.id = row.id) (hhash : row.refreshTokenHash = secrets.hash token →
      new.refreshTokenHash = secrets.hash token) :
    Live secrets { a with devices := a.devices.put new } token := by
  obtain ⟨own, hown, heq⟩ := h
  refine ⟨if own.id = new.id then new else own, List.mem_map.mpr ⟨own, hown, rfl⟩, ?_⟩
  split
  · rename_i hsame
    have hget : a.devices.get row.id = some own := by
      rw [← hid, ← hsame]
      exact Table.get_of_mem hown
    obtain rfl : own = row := Option.some.inj (hget.symm.trans (Table.get_of_mem hrow))
    exact hhash heq
  · exact heq

/-- Every call but a rotation of the token itself keeps a token alive. -/
theorem Live.perform (h : Live secrets a token) (call : AuthCall)
    (hne : ∀ r issued, call = .rotateRefreshToken r →
      (call.perform secrets now done a).1 = .tokens issued → r ≠ token) :
    Live secrets (call.perform secrets now done a).2 token := by
  cases call with
  | createPairingCode => exact h
  | exchangePairingCode code deviceName =>
    cases hx : a.exchangePairingCode secrets code deviceName now done with
    | error e => simpa only [AuthCall.perform, hx] using h
    | ok result =>
      obtain ⟨issued, a'⟩ := result
      simp only [AuthCall.perform, hx]
      obtain ⟨_, _, _, _, _, _, rfl⟩ := exchangePairingCode_eq_ok hx
      exact h.insert rfl
  | rotateRefreshToken r =>
    cases hx : a.rotateRefreshToken secrets r now done with
    | error e => simpa only [AuthCall.perform, hx] using h
    | ok result =>
      obtain ⟨issued, a'⟩ := result
      have hr : r ≠ token := hne r issued rfl (by simp only [AuthCall.perform, hx])
      simp only [AuthCall.perform, hx]
      obtain ⟨device, hdevice, hhash, _, _, _, _, rfl⟩ := rotateRefreshToken_eq_ok hx
      refine Live.put h hdevice rfl fun heq => ?_
      exact absurd (secrets.hash_injective (hhash.symm.trans heq)) hr
  | verifyAccessToken jwt =>
    cases hx : a.verifyAccessToken secrets jwt now done with
    | error e => simpa only [AuthCall.perform, hx] using h
    | ok result =>
      obtain ⟨device, a'⟩ := result
      simp only [AuthCall.perform, hx]
      obtain ⟨_, row, _, hrow, _, _, _, rfl⟩ := verifyAccessToken_eq_ok hx
      exact Live.put h hrow rfl id
  | revokeDevice deviceId =>
    show Live secrets (a.revokeDevice deviceId now).2 token
    unfold Auth.revokeDevice
    cases hget : a.devices.get deviceId with
    | none => exact h
    | some device => exact Live.put h (Table.mem_of_get hget) rfl id

theorem drawn_perform (secrets : Secrets) (a : Auth) (call : AuthCall) (now done : Time) :
    a.drawn ≤ (call.perform secrets now done a).2.drawn := by
  cases call with
  | createPairingCode => exact Nat.le_add_right _ _
  | exchangePairingCode code deviceName =>
    cases hx : a.exchangePairingCode secrets code deviceName now done with
    | error e => simp only [AuthCall.perform, hx, le_refl]
    | ok result =>
      obtain ⟨issued, a'⟩ := result
      simp only [AuthCall.perform, hx]
      obtain ⟨_, _, _, _, _, _, rfl⟩ := exchangePairingCode_eq_ok hx
      exact Nat.le_add_right _ _
  | rotateRefreshToken r =>
    cases hx : a.rotateRefreshToken secrets r now done with
    | error e => simp only [AuthCall.perform, hx, le_refl]
    | ok result =>
      obtain ⟨issued, a'⟩ := result
      simp only [AuthCall.perform, hx]
      obtain ⟨_, _, _, _, _, _, _, rfl⟩ := rotateRefreshToken_eq_ok hx
      exact Nat.le_succ _
  | verifyAccessToken jwt =>
    cases hx : a.verifyAccessToken secrets jwt now done with
    | error e => simp only [AuthCall.perform, hx, le_refl]
    | ok result =>
      obtain ⟨device, a'⟩ := result
      simp only [AuthCall.perform, hx]
      obtain ⟨_, _, _, _, _, _, _, rfl⟩ := verifyAccessToken_eq_ok hx
      exact Nat.le_refl _
  | revokeDevice deviceId =>
    show a.drawn ≤ (a.revokeDevice deviceId now).2.drawn
    unfold Auth.revokeDevice
    cases a.devices.get deviceId <;> exact Nat.le_refl _

/-- A token that is handed out is new, and alive. -/
theorem live_of_issued (hrun : AuthRun secrets w) {call : AuthCall} {issued : IssuedTokens}
    (h : w.answer secrets call now done = .tokens issued) :
    issued.refreshToken = secrets.draw w.auth.drawn ∧
      w.auth.drawn < (w.after secrets call now done).auth.drawn ∧
      Live secrets (w.after secrets call now done).auth issued.refreshToken := by
  unfold AuthWorld.answer at h
  unfold AuthWorld.after
  cases call with
  | createPairingCode => cases h
  | exchangePairingCode code deviceName =>
    cases hx : w.auth.exchangePairingCode secrets code deviceName now done with
    | error e =>
      simp only [AuthCall.perform, hx] at h
      cases h
    | ok result =>
      obtain ⟨tokens, a'⟩ := result
      simp only [AuthCall.perform, hx] at h ⊢
      obtain rfl := AuthAnswer.tokens.inj h
      obtain ⟨_, _, _, _, htoken, _, rfl⟩ := exchangePairingCode_eq_ok hx
      have hfresh : secrets.draw (w.auth.drawn + 1) ∉ w.auth.devices.rows.map (·.id) := by
        intro hmem
        obtain ⟨row, hrow, heq⟩ := List.mem_map.mp hmem
        exact (hrun.sound.devices.ids row hrow).ne (Nat.le_succ _) heq
      refine ⟨htoken, Nat.lt_add_of_pos_right Nat.two_pos, _,
        Table.mem_of_get (Table.get_insert_self (Table.get_eq_none_iff.mpr hfresh)), ?_⟩
      exact congrArg secrets.hash htoken.symm
  | rotateRefreshToken r =>
    cases hx : w.auth.rotateRefreshToken secrets r now done with
    | error e =>
      simp only [AuthCall.perform, hx] at h
      cases h
    | ok result =>
      obtain ⟨tokens, a'⟩ := result
      simp only [AuthCall.perform, hx] at h ⊢
      obtain rfl := AuthAnswer.tokens.inj h
      obtain ⟨device, hdevice, _, _, _, htoken, _, rfl⟩ := rotateRefreshToken_eq_ok hx
      refine ⟨htoken, Nat.lt_succ_self _, _, List.mem_map.mpr ⟨device, hdevice, if_pos rfl⟩, ?_⟩
      exact congrArg secrets.hash htoken.symm
  | verifyAccessToken jwt =>
    cases hx : w.auth.verifyAccessToken secrets jwt now done with
    | error e =>
      simp only [AuthCall.perform, hx] at h
      cases h
    | ok result =>
      obtain ⟨device, a'⟩ := result
      simp only [AuthCall.perform, hx] at h
      cases h
  | revokeDevice deviceId =>
    cases h

end Live

/-! ### The invariant -/

section Invariant

variable {ι : Type} {secrets : Secrets} {s s' : State ι} {i : ι} {now done : Time}

/-- Every outstanding token is alive and has only one holder, and the stored one is alive or was
given for an outstanding one. -/
structure Inv (secrets : Secrets) (s : State ι) : Prop where
  run : AuthRun secrets s.server
  drawn : ∀ token, s.Given token → secrets.Drawn s.server.auth.drawn token
  loaded : ∀ i token, s.loaded i = some token → token ∈ s.saved
  outstanding : ∀ token, s.Outstanding token → token ∉ s.saved ∧ Live secrets s.server.auth token
  apart : ∀ i token, s.unsaved i = some token → token ∉ s.lost ∧ ∀ j, s.unsaved j = some token → j = i
  keychain : ∀ token, s.keychain .refreshToken = some token → token ∈ s.saved ∧
    (Live secrets s.server.auth token ∨ ∃ next, (token, next) ∈ s.rotations ∧ s.Outstanding next)

/-- A call that rotates none of the phone's tokens. -/
theorem Inv.after (h : Inv secrets s) (call : AuthCall) (hlater : s.Later now done)
    (hne : ∀ r issued, call = .rotateRefreshToken r →
      s.server.answer secrets call now done = .tokens issued → ¬ s.Given r) :
    Inv secrets { s with server := s.server.after secrets call now done } := by
  have hlive : ∀ token, s.Given token → Live secrets s.server.auth token →
      Live secrets (s.server.after secrets call now done).auth token := by
    intro token hgiven hl
    refine hl.perform call fun r issued hcall hanswer hr => ?_
    exact hne r issued hcall hanswer (hr ▸ hgiven)
  refine ⟨h.run.call call hlater.1 hlater.2, ?_, h.loaded, ?_, h.apart, ?_⟩
  · intro token hgiven
    exact (h.drawn token hgiven).mono (drawn_perform secrets _ call now done)
  · intro token hout
    obtain ⟨hsaved, hl⟩ := h.outstanding token hout
    exact ⟨hsaved, hlive token (Or.inr hout) hl⟩
  · intro token hk
    obtain ⟨hsaved, hl⟩ := h.keychain token hk
    exact ⟨hsaved, hl.imp_left (hlive token (Or.inl hsaved))⟩

theorem keychain_put_of_ne {account : Account} (value : Option account.Value) (ha : account ≠ .refreshToken) :
    (s.put account value).keychain .refreshToken = s.keychain .refreshToken :=
  Function.update_of_ne ha.symm _ _

/-- The refresh token stays in the keychain, or leaves it. -/
theorem Inv.put (h : Inv secrets s) (account : Account) (value : Option account.Value)
    (hk : (s.put account value).keychain .refreshToken = s.keychain .refreshToken ∨
      (s.put account value).keychain .refreshToken = none) : Inv secrets (s.put account value) := by
  refine ⟨h.run, h.drawn, h.loaded, h.outstanding, h.apart, fun token ht => ?_⟩
  rcases hk with hk | hk
  · exact h.keychain token (hk ▸ ht)
  · rw [hk] at ht
    cases ht

theorem inv_start {server : AuthWorld} (h : AuthRun secrets server) :
    Inv secrets ({ server := server } : State ι) := by
  have hnone : ∀ token, ¬ ({ server := server } : State ι).Outstanding token := by
    rintro token (⟨j, hj⟩ | hmem)
    · cases hj
    · cases hmem
  refine ⟨h, ?_, ?_, ?_, ?_, ?_⟩
  · rintro token (hmem | ho)
    · cases hmem
    · exact absurd ho (hnone token)
  · intro j token hj
    cases hj
  · intro token ho
    exact absurd ho (hnone token)
  · intro j token hj
    cases hj
  · intro token hk
    cases hk

variable [DecidableEq ι]

theorem outstanding_given {presented : List String} {server : AuthWorld} {token : String}
    (hi : s.unsaved i = none) (delivered : Bool) (other : String) :
    (s.given i presented server token delivered).Outstanding other ↔ s.Outstanding other ∨ other = token := by
  cases delivered with
  | false =>
    show (∃ j, s.unsaved j = some other) ∨ other ∈ s.lost ++ [token] ↔ _
    rw [List.mem_append, List.mem_singleton, ← or_assoc]
    rfl
  | true =>
    show (∃ j, Function.update s.unsaved i (some token) j = some other) ∨ other ∈ s.lost ↔ _
    constructor
    · rintro (⟨j, hj⟩ | hlost)
      · by_cases hji : j = i
        · rw [hji, Function.update_self] at hj
          exact Or.inr (Option.some.inj hj).symm
        · rw [Function.update_of_ne hji] at hj
          exact Or.inl (Or.inl ⟨j, hj⟩)
      · exact Or.inl (Or.inr hlost)
    · rintro ((⟨j, hj⟩ | hlost) | rfl)
      · have hji : j ≠ i := by
          intro heq
          rw [heq, hi] at hj
          cases hj
        exact Or.inl ⟨j, (Function.update_of_ne hji _ _).trans hj⟩
      · exact Or.inr hlost
      · exact Or.inl ⟨i, Function.update_self ..⟩

theorem apart_given (h : Inv secrets s) {presented : List String} {server : AuthWorld} {token : String}
    (hnew : ∀ other, s.Given other → other ≠ token) (delivered : Bool) {k : ι} {other : String}
    (hk : (s.given i presented server token delivered).unsaved k = some other) :
    other ∉ (s.given i presented server token delivered).lost ∧
      ∀ j, (s.given i presented server token delivered).unsaved j = some other → j = k := by
  have hgiven : ∀ {j other}, s.unsaved j = some other → other ≠ token :=
    fun {j other} hj => hnew other (Or.inr (Or.inl ⟨j, hj⟩))
  cases delivered with
  | false =>
    obtain ⟨hlost, hone⟩ := h.apart k other hk
    refine ⟨fun hmem => ?_, hone⟩
    rcases List.mem_append.mp hmem with hmem | hmem
    · exact hlost hmem
    · exact hgiven hk (List.mem_singleton.mp hmem)
  | true =>
    have hk : Function.update s.unsaved i (some token) k = some other := hk
    show other ∉ s.lost ∧ ∀ j, Function.update s.unsaved i (some token) j = some other → j = k
    by_cases hki : k = i
    · rw [hki, Function.update_self] at hk
      obtain rfl := Option.some.inj hk
      refine ⟨fun hmem => hnew _ (Or.inr (Or.inr hmem)) rfl, fun j hj => ?_⟩
      by_cases hji : j = i
      · exact hji.trans hki.symm
      · rw [Function.update_of_ne hji] at hj
        exact absurd rfl (hgiven hj)
    · rw [Function.update_of_ne hki] at hk
      obtain ⟨hlost, hone⟩ := h.apart k other hk
      refine ⟨hlost, fun j hj => ?_⟩
      by_cases hji : j = i
      · rw [hji, Function.update_self] at hj
        exact absurd (Option.some.inj hj).symm (hgiven hk)
      · rw [Function.update_of_ne hji] at hj
        exact hone j hj

/-- A call that hands out a token to task `i`, which has none to store. -/
theorem Inv.given (h : Inv secrets s) {presented : List String} {call : AuthCall} {issued : IssuedTokens}
    (hlater : s.Later now done) (hi : s.unsaved i = none)
    (hcall : ∀ r, call = .rotateRefreshToken r → presented = [r] ∧ r ∈ s.saved)
    (hanswer : s.server.answer secrets call now done = .tokens issued) (delivered : Bool) :
    Inv secrets (s.given i presented (s.server.after secrets call now done) issued.refreshToken delivered) := by
  obtain ⟨hdraw, hlt, hfirst⟩ := live_of_issued h.run hanswer
  have hnew : ∀ other, s.Given other → other ≠ issued.refreshToken := by
    intro other hgiven
    rw [hdraw]
    exact (h.drawn other hgiven).ne (Nat.le_refl _)
  have hout : ∀ other, (s.given i presented (s.server.after secrets call now done) issued.refreshToken
      delivered).Outstanding other ↔ s.Outstanding other ∨ other = issued.refreshToken :=
    outstanding_given hi delivered
  have hlive : ∀ token, Live secrets s.server.auth token →
      (∀ r, call = .rotateRefreshToken r → r ≠ token) →
      Live secrets (s.server.after secrets call now done).auth token := by
    intro token hl hne
    exact hl.perform call fun r _ hr _ => hne r hr
  refine ⟨h.run.call call hlater.1 hlater.2, ?_, h.loaded, ?_, ?_, ?_⟩
  · intro token hgiven
    have hold : s.Given token ∨ token = issued.refreshToken := by
      rcases hgiven with hsaved | ho
      · exact Or.inl (Or.inl hsaved)
      · exact ((hout token).mp ho).imp_left Or.inr
    rcases hold with hgiven | rfl
    · exact (h.drawn token hgiven).mono hlt.le
    · rw [hdraw]
      exact secrets.drawn_draw hlt
  · intro token ho
    rcases (hout token).mp ho with ho | rfl
    · obtain ⟨hsaved, hl⟩ := h.outstanding token ho
      refine ⟨hsaved, hlive token hl fun r hr heq => ?_⟩
      exact hsaved (heq ▸ (hcall r hr).2)
    · exact ⟨fun hsaved => hnew _ (Or.inl hsaved) rfl, hfirst⟩
  · intro k other hk
    exact apart_given h hnew delivered hk
  · intro token hk
    obtain ⟨hsaved, hl⟩ := h.keychain token hk
    refine ⟨hsaved, ?_⟩
    by_cases hrotates : call = .rotateRefreshToken token
    · obtain ⟨rfl, -⟩ := hcall token hrotates
      exact Or.inr ⟨issued.refreshToken, List.mem_append_right _ List.mem_cons_self, (hout _).mpr (Or.inr rfl)⟩
    · rcases hl with hl | ⟨next, hmem, ho⟩
      · exact Or.inl (hlive token hl fun r hr heq => hrotates (heq ▸ hr))
      · exact Or.inr ⟨next, List.mem_append_left _ hmem, (hout next).mpr (Or.inl ho)⟩

/-- A call for new tokens, whatever comes of it. -/
theorem Inv.served (h : Inv secrets s) {presented : List String} {call : AuthCall} {reply : Reply}
    (hi : s.unsaved i = none) (hcall : ∀ r, call = .rotateRefreshToken r → presented = [r] ∧ r ∈ s.saved)
    (hs : s.Served secrets i presented call reply s') : Inv secrets s' := by
  rcases hs with ⟨now, done, delivered, hlater, hs⟩ | ⟨rfl, -⟩
  · have hs' : s' = (s.serve secrets i presented call now done delivered).2 := congrArg Prod.snd hs
    have hrefused : (∀ issued, s.server.answer secrets call now done ≠ .tokens issued) →
        Inv secrets { s with server := s.server.after secrets call now done } := by
      intro hno
      exact h.after call hlater fun r issued _ hanswer => absurd hanswer (hno issued)
    rw [hs', State.serve]
    cases hanswer : s.server.answer secrets call now done with
    | tokens issued => exact h.given hlater hi hcall hanswer delivered
    | pairingCode code => exact hrefused (by simp [hanswer])
    | device device => exact hrefused (by simp [hanswer])
    | revoked found => exact hrefused (by simp [hanswer])
    | refused e => exact hrefused (by simp [hanswer])
  · exact h

/-- A refresh token is stored by the task that was given it, where none is stored. -/
theorem Inv.stored (h : Inv secrets s) {token : String} (hi : s.unsaved i = some token) :
    Inv secrets (s.stored i .refreshToken token) := by
  obtain ⟨hlost, hone⟩ := h.apart i token hi
  obtain ⟨-, hlive⟩ := h.outstanding token (Or.inl ⟨i, hi⟩)
  have hunsaved : ∀ j other, Function.update s.unsaved i none j = some other →
      j ≠ i ∧ s.unsaved j = some other := by
    intro j other hj
    by_cases hji : j = i
    · rw [hji, Function.update_self] at hj
      cases hj
    · rw [Function.update_of_ne hji] at hj
      exact ⟨hji, hj⟩
  have hout : ∀ other, (s.stored i .refreshToken token).Outstanding other →
      s.Outstanding other ∧ other ≠ token := by
    rintro other (⟨j, hj⟩ | hmem)
    · obtain ⟨hji, hj⟩ := hunsaved j other hj
      exact ⟨Or.inl ⟨j, hj⟩, fun heq => hji (hone j (heq ▸ hj))⟩
    · exact ⟨Or.inr hmem, fun heq => hlost (heq ▸ hmem)⟩
  have hsaved : ∀ other, other ∈ s.saved ++ [token] ↔ other ∈ s.saved ∨ other = token := by simp
  refine ⟨h.run, ?_, ?_, ?_, ?_, ?_⟩
  · rintro other (hmem | ho)
    · rcases (hsaved other).mp hmem with hmem | rfl
      · exact h.drawn other (Or.inl hmem)
      · exact h.drawn _ (Or.inr (Or.inl ⟨i, hi⟩))
    · exact h.drawn other (Or.inr (hout other ho).1)
  · intro j other hj
    exact (hsaved other).mpr (Or.inl (h.loaded j other hj))
  · intro other ho
    obtain ⟨ho, hne⟩ := hout other ho
    obtain ⟨hold, hl⟩ := h.outstanding other ho
    exact ⟨fun hmem => ((hsaved other).mp hmem).elim hold hne, hl⟩
  · intro j other hj
    obtain ⟨-, hj⟩ := hunsaved j other hj
    obtain ⟨hlost, hone⟩ := h.apart j other hj
    exact ⟨hlost, fun k hk => hone k (hunsaved k other hk).2⟩
  · intro other hk
    have hk : Function.update s.keychain .refreshToken (some token) .refreshToken = some other := hk
    rw [Function.update_self] at hk
    obtain rfl := Option.some.inj hk
    exact ⟨(hsaved _).mpr (Or.inr rfl), Or.inl hlive⟩

theorem Inv.read (h : Inv secrets s) (i : ι) (account : Account) : Inv secrets (s.read i account) := by
  cases account with
  | serverURL => exact h
  | accessToken => exact h
  | refreshToken =>
    refine ⟨h.run, h.drawn, fun j token hj => ?_, h.outstanding, h.apart, h.keychain⟩
    have hj : Function.update s.loaded i (s.keychain .refreshToken) j = some token := hj
    by_cases hji : j = i
    · rw [hji, Function.update_self] at hj
      exact (h.keychain token hj).1
    · rw [Function.update_of_ne hji] at hj
      exact h.loaded j token hj

/-- Every call of a task that does its duty keeps the invariant. -/
theorem Inv.env (h : Inv secrets s) {o : Op} {a : o.Ans} (hd : Duty (s.memory i) o)
    (he : env secrets i s o a s') : Inv secrets s' := by
  cases o with
  | load account =>
    obtain ⟨-, rfl⟩ := he
    exact h.read i account
  | delete account =>
    have he : s' = if a then s.put account none else s := he
    cases a with
    | false => exact he ▸ h
    | true =>
      refine he ▸ h.put account none ?_
      by_cases ha : account = .refreshToken
      · subst ha
        exact Or.inr (by simp [State.put])
      · exact Or.inl (keychain_put_of_ne none ha)
  | add account value =>
    have he : if a then s.keychain account = none ∧ s' = s.stored i account value else s' = s := he
    cases a with
    | false => exact he ▸ h
    | true =>
      obtain ⟨-, rfl⟩ := he
      cases account with
      | serverURL => exact h.put _ _ (Or.inl (keychain_put_of_ne (some value) (by decide)))
      | accessToken => exact h.put _ _ (Or.inl (keychain_put_of_ne (some value) (by decide)))
      | refreshToken => exact h.stored hd
  | pair code deviceName =>
    refine h.served hd (fun r hr => ?_) he
    cases hr
  | refresh token =>
    have hl : s.loaded i = some token := congrArg Prod.fst hd
    refine h.served (congrArg Prod.snd hd) (fun r hr => ?_) he
    cases hr
    exact ⟨rfl, h.loaded i token hl⟩
  | send token =>
    rcases he with rfl | ⟨jwt, now, done, rfl, hlater, rfl⟩
    · exact h
    · refine h.after _ hlater fun r _ hr => ?_
      cases hr

theorem memory_served {presented : List String} {call : AuthCall} {reply : Reply}
    (hs : s.Served secrets i presented call reply s') :
    s'.memory i = kept (s.memory i) reply ∧ ∀ j, j ≠ i → s'.memory j = s.memory j := by
  rcases hs with ⟨now, done, delivered, -, hs⟩ | ⟨rfl, hno⟩
  · unfold State.serve at hs
    obtain ⟨hreply, hs'⟩ := Prod.ext_iff.mp hs
    have hreply : reply = _ := hreply
    have hs' : s' = _ := hs'
    rw [hreply, hs']
    cases s.server.answer secrets call now done with
    | tokens issued =>
      cases delivered with
      | true =>
        refine ⟨Prod.ext rfl (Function.update_self ..), fun j hj => Prod.ext rfl ?_⟩
        exact Function.update_of_ne hj _ _
      | false => exact ⟨rfl, fun _ _ => rfl⟩
    | pairingCode code => cases delivered <;> exact ⟨rfl, fun _ _ => rfl⟩
    | device device => cases delivered <;> exact ⟨rfl, fun _ _ => rfl⟩
    | revoked found => cases delivered <;> exact ⟨rfl, fun _ _ => rfl⟩
    | refused e => cases delivered <;> exact ⟨rfl, fun _ _ => rfl⟩
  · refine ⟨?_, fun _ _ => rfl⟩
    cases reply with
    | tokens issued => exact absurd rfl (hno issued)
    | status code => rfl
    | failed => rfl

/-- A call of task `i` is remembered by it and by no other. -/
theorem memory_env {o : Op} {a : o.Ans} (he : Phone.env secrets i s o a s') :
    s'.memory i = remember (s.memory i) o a ∧ ∀ j, j ≠ i → s'.memory j = s.memory j := by
  cases o with
  | load account =>
    obtain ⟨ha, rfl⟩ := he
    cases account with
    | serverURL => exact ⟨rfl, fun _ _ => rfl⟩
    | accessToken => exact ⟨rfl, fun _ _ => rfl⟩
    | refreshToken =>
      refine ⟨Prod.ext ?_ rfl, fun j hj => Prod.ext (Function.update_of_ne hj _ _) rfl⟩
      exact (Function.update_self ..).trans ha.symm
  | delete account =>
    have he : s' = if a then s.put account none else s := he
    rw [he]
    cases a <;> cases account <;> exact ⟨rfl, fun _ _ => rfl⟩
  | add account value =>
    have he : if a then s.keychain account = none ∧ s' = s.stored i account value else s' = s := he
    cases a with
    | false =>
      have he : s' = s := he
      rw [he]
      cases account <;> exact ⟨rfl, fun _ _ => rfl⟩
    | true =>
      obtain ⟨-, rfl⟩ := he
      cases account with
      | serverURL => exact ⟨rfl, fun _ _ => rfl⟩
      | accessToken => exact ⟨rfl, fun _ _ => rfl⟩
      | refreshToken =>
        exact ⟨Prod.ext rfl (Function.update_self ..), fun j hj => Prod.ext rfl (Function.update_of_ne hj _ _)⟩
  | pair code deviceName => exact memory_served he
  | refresh token => exact memory_served he
  | send token =>
    rcases he with rfl | ⟨jwt, now, done, rfl, -, rfl⟩ <;> exact ⟨rfl, fun _ _ => rfl⟩

/-- Between two calls of a task, nobody touches its memory. -/
def untouched (i : ι) : Rely (State ι) where
  allows s s' := s'.memory i = s.memory i
  refl _ := rfl
  trans h h' := h'.trans h

def onDuty (i : ι) (s : State ι) (o : Op) : Prop := Duty (s.memory i) o

theorem under_of_dutiful {p : Client Unit} {m : Memory} (h : Dutiful p (fun _ _ => True) m)
    (hm : s.memory i = m) :
    p.under (untouched i) (onDuty i) (Phone.env secrets i) (fun _ _ => True) (fun _ _ => True) s := by
  induction p generalizing s m with
  | ret a => exact fun _ _ => trivial
  | raise e => exact fun _ _ => trivial
  | call o k ih =>
    intro t ht
    have htm : t.memory i = m := ht.trans hm
    have hd : Duty (t.memory i) o := htm ▸ h.1
    refine ⟨hd, fun a t' he => ?_⟩
    exact ih a (h.2 a _ rfl) (htm ▸ (memory_env he).1)

theorem Reachable.inv (h : Reachable secrets s) : Inv secrets s := by
  obtain ⟨server, calls, tasks, hrun, hsteps⟩ := h
  have hsound : (phone secrets).Sound untouched onDuty ({ server := server }, fun i => (calls i).client) :=
    fun i => under_of_dutiful (dutiful_call (calls i)) rfl
  refine (Pool.invariant_of_rely ?_ ?_ ?_ (inv_start hrun) hsound hsteps).1
  · intro i s o a s' hI hd he
    exact ⟨hI.env hd he, fun j hj => (memory_env he).2 j hj⟩
  · intro i s p _ hp
    exact hp.elim
  · rintro s s' hI ⟨call, now, done, hlater, hother, rfl⟩
    exact ⟨hI.after call hlater fun r _ hr _ => hother r hr, fun _ => rfl⟩

/-- The stored refresh token is refused only when the device was revoked or its time is over, or
when the server has given the phone a newer one that no task has stored: one still has it, or its
reply was lost. No interleaving of the tasks alone locks a phone out. -/
theorem refused_refresh (h : Reachable secrets s) {token : String} {e : PyError}
    (hk : s.keychain .refreshToken = some token)
    (he : s.server.auth.rotateRefreshToken secrets token now done = .error e) :
    (∃ row ∈ s.server.auth.devices.rows, row.refreshTokenHash = secrets.hash token ∧
      (row.revokedAt.isSome ∨ row.refreshExpiresAt ≤ now)) ∨
    ∃ next, (token, next) ∈ s.rotations ∧ s.Outstanding next ∧ next ∉ s.saved ∧
      Live secrets s.server.auth next := by
  obtain ⟨-, hl⟩ := h.inv.keychain token hk
  rcases hl with ⟨row, hrow, hhash⟩ | ⟨next, hmem, ho⟩
  · refine Or.inl ?_
    unfold Auth.rotateRefreshToken at he
    split at he
    case h_1 hnone =>
      have hno := List.find?_eq_none.mp hnone row hrow
      exact absurd (beq_iff_eq.mpr hhash) hno
    case h_2 device hfirst =>
      have hdevice : device ∈ s.server.auth.devices.rows := Table.mem_of_get (Table.get_of_first hfirst)
      have hsame : device.refreshTokenHash = secrets.hash token := by simpa using Table.pred_of_first hfirst
      split_ifs at he with hdead
      exact ⟨device, hdevice, hsame, hdead⟩
  · exact Or.inr ⟨next, hmem, ho, h.inv.outstanding next ho⟩

end Invariant

/-! ### A lost reply -/

/-- What is done with a call: the server is reached at once, but loses the replies to refreshes. -/
def losing {ι : Type} [DecidableEq ι] (i : ι) (s : State ι) : (o : Op) → o.Ans × State ι
  | .load account => (s.keychain account, s.read i account)
  | .delete account => (true, s.put account none)
  | .add account value => (true, s.stored i account value)
  | .pair code deviceName =>
    s.serve plainSecrets i [] (.exchangePairingCode code deviceName) s.server.now s.server.now true
  | .refresh token =>
    s.serve plainSecrets i [token] (.rotateRefreshToken token) s.server.now s.server.now false
  | .send _ => (some 401, s)

/-- Where `losing` is an answer that the phone may get. -/
def allowsLosing {ι : Type} (_ : ι) (s : State ι) : Op → Bool
  | .add account _ => (s.keychain account).isNone
  | _ => true

theorem env_losing {ι : Type} [DecidableEq ι] (i : ι) (s : State ι) (o : Op)
    (h : allowsLosing i s o = true) : env plainSecrets i s o (losing i s o).1 (losing i s o).2 := by
  cases o with
  | load account => exact ⟨rfl, rfl⟩
  | delete account => rfl
  | add account value => exact ⟨Option.isNone_iff_eq_none.mp h, rfl⟩
  | pair code deviceName => exact Or.inl ⟨_, _, true, ⟨Int.le_refl _, Int.le_refl _⟩, rfl⟩
  | refresh token => exact Or.inl ⟨_, _, false, ⟨Int.le_refl _, Int.le_refl _⟩, rfl⟩
  | send token => exact Or.inl rfl

/-- One task pairs the phone, another asks for a document. -/
def sampleCalls : Bool → Call
  | true => .pair "https://files.example" (plainSecrets.draw 0) "phone"
  | false => .data

def samplePhone : State Bool × (Bool → Client Unit) :=
  Pool.play losing (List.replicate 7 true ++ List.replicate 8 false)
    ({ server := AuthWorld.after plainSecrets ⟨{}, 0, []⟩ .createPairingCode 0 0 },
      fun i => (sampleCalls i).client)

theorem reachable_samplePhone : Reachable plainSecrets samplePhone.1 := by
  have hrun : AuthRun plainSecrets (AuthWorld.after plainSecrets ⟨{}, 0, []⟩ .createPairingCode 0 0) :=
    (AuthRun.start 0).call .createPairingCode (Int.le_refl _) (Int.le_refl _)
  refine ⟨_, sampleCalls, samplePhone.2, hrun, ?_⟩
  exact Pool.play_steps allowsLosing env_losing _ _ (by decide +kernel)

theorem samplePhone_refused :
    ∃ e, samplePhone.1.server.auth.rotateRefreshToken plainSecrets (plainSecrets.draw 2) 60 60 = .error e := by
  cases he : samplePhone.1.server.auth.rotateRefreshToken plainSecrets (plainSecrets.draw 2) 60 60 with
  | error e => exact ⟨e, rfl⟩
  | ok result =>
    have hno : (samplePhone.1.server.auth.rotateRefreshToken plainSecrets (plainSecrets.draw 2) 60
        60).toOption.isNone := by decide +kernel
    rw [he] at hno
    cases hno

theorem samplePhone_locked :
    (∃ row ∈ samplePhone.1.server.auth.devices.rows,
      row.refreshTokenHash = plainSecrets.hash (plainSecrets.draw 2) ∧
        (row.revokedAt.isSome ∨ row.refreshExpiresAt ≤ 60)) ∨
    ∃ next, (plainSecrets.draw 2, next) ∈ samplePhone.1.rotations ∧ samplePhone.1.Outstanding next ∧
      next ∉ samplePhone.1.saved ∧ Live plainSecrets samplePhone.1.server.auth next := by
  obtain ⟨e, he⟩ := samplePhone_refused
  have hk : samplePhone.1.keychain .refreshToken = some (plainSecrets.draw 2) := by decide +kernel
  exact refused_refresh reachable_samplePhone hk he

end Mnema.Phone
