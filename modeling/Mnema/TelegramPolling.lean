import Mnema.DeviceCredentials
import Mnema.TelegramBot
import Mathlib.Data.List.Basic

/-! Long polling: which updates the bot handles, in which order and how often, when calls fail and
processes end. What Telegram answers to `getUpdates` is a parameter. -/

namespace Mnema.Telegram

/-- The process that polls. `current` was handed to `handle` since it started, `earlier` by the
processes before it. -/
structure Polling where
  offset : Option Nat := none
  batch : List Update := []
  bot : Bot := {}
  current : List Update := []
  earlier : List Update := []

/-- `poll` is a `getUpdates` that is answered while Telegram keeps `kept`. -/
inductive Act where
  | poll (kept answer : List Update)
  | pollFails
  | handle (now later : Time)
  | restart
  | database (auth : Auth)

/-- The process goes on, and Telegram keeps `v`. -/
def Act.Keeps (v : Update) : Act → Prop
  | poll kept _ => v ∈ kept
  | restart => False
  | _ => True

/-- Which answers a call with an offset may have, by the updates that Telegram keeps. -/
abbrev GetUpdates := Option Nat → List Update → List Update → Prop

/-- What the loop relies on: identifiers ascend, an answer starts with the earliest update that is
kept at or above the offset, and it is not empty if there is one. -/
structure GetUpdates.Documented (getUpdates : GetUpdates) : Prop where
  ascending : ∀ {offset kept answer}, getUpdates offset kept answer →
    kept.Pairwise fun u v => u.updateId < v.updateId
  earliest : ∀ {offset kept answer}, getUpdates offset kept answer →
    answer <+: kept.filter fun u => decide (offset.getD 0 ≤ u.updateId)
  prompt : ∀ {offset kept}, getUpdates offset kept [] → ∀ u ∈ kept, u.updateId < offset.getD 0

namespace Polling

/-- An update below it is one that the next call would confirm. -/
def next (s : Polling) : Nat := s.offset.getD 0

section Run

variable (secrets : Secrets) (settings : Settings) (world : World) (link : String → String → String)

/-- Whether `handle` raises; what is left of the batch is then dropped. -/
def raises (bot : Bot) (u : Update) (now later : Time) : Bool :=
  match (Telegram.handle secrets settings world link u now later).run bot with
  | .ok _ _ => false
  | .error _ _ => true

/-- The body of the `for` loop. -/
def handle (s : Polling) (now later : Time) : Polling :=
  match s.batch with
  | [] => s
  | u :: rest =>
    { s with
      offset := some (u.updateId + 1)
      bot := s.bot.handled secrets settings world link u now later
      batch := if raises secrets settings world link s.bot u now later then [] else rest
      current := s.current ++ [u] }

/-- The process ends and another one starts. -/
def restart (s : Polling) : Polling :=
  { s with
    offset := none, batch := [], bot := s.bot.after secrets settings world link .restart
    current := [], earlier := s.earlier ++ s.current }

def step (s : Polling) : Act → Polling
  | .poll _ answer => { s with batch := answer }
  | .pollFails => s
  | .handle now later => s.handle secrets settings world link now later
  | .restart => s.restart secrets settings world link
  | .database auth => { s with bot := s.bot.after secrets settings world link (.database auth) }

def goOn (s : Polling) (acts : List Act) : Polling := acts.foldl (step secrets settings world link) s

/-- A call is made when the batch is done, and answered as Telegram may answer it. -/
def Permits (getUpdates : GetUpdates) (s : Polling) : Act → Prop
  | .poll kept answer => s.batch = [] ∧ getUpdates s.offset kept answer
  | .pollFails => s.batch = []
  | _ => True

/-- A run from `s` on. -/
def Permitted (getUpdates : GetUpdates) : Polling → List Act → Prop
  | _, [] => True
  | s, act :: acts =>
    Permits getUpdates s act ∧ Permitted getUpdates (s.step secrets settings world link act) acts

end Run

section Invariant

variable {secrets : Secrets} {settings : Settings} {world : World} {link : String → String → String}
  {getUpdates : GetUpdates} {s : Polling} {act : Act} {acts more : List Act} {v : Update}

theorem permitted_append : Permitted secrets settings world link getUpdates s (acts ++ more) ↔
    Permitted secrets settings world link getUpdates s acts ∧
      Permitted secrets settings world link getUpdates (s.goOn secrets settings world link acts) more := by
  induction acts generalizing s with
  | nil => simp [Permitted, goOn]
  | cons act acts ih =>
    simp only [List.cons_append, Permitted, ih, and_assoc]
    rfl

theorem goOn_append : s.goOn secrets settings world link (acts ++ more) =
    (s.goOn secrets settings world link acts).goOn secrets settings world link more :=
  List.foldl_append

/-- What the process was given lies below what it asks for next, and the batch above. -/
structure Inv (s : Polling) : Prop where
  current : s.current.Pairwise fun u v => u.updateId < v.updateId
  below : ∀ u ∈ s.current, u.updateId < s.next
  batch : s.batch.Pairwise fun u v => u.updateId < v.updateId
  above : ∀ u ∈ s.batch, s.next ≤ u.updateId

theorem Inv.start : Inv {} where
  current := List.Pairwise.nil
  below := by simp
  batch := List.Pairwise.nil
  above := by simp

theorem Inv.poll (h : s.Inv) (hdoc : getUpdates.Documented) {kept answer : List Update}
    (ha : getUpdates s.offset kept answer) : Inv { s with batch := answer } := by
  have hpre := hdoc.earliest ha
  refine ⟨h.current, h.below, ((hdoc.ascending ha).filter _).sublist hpre.sublist, fun u hu => ?_⟩
  exact of_decide_eq_true (List.mem_filter.mp (hpre.subset hu)).2

/-- The first of the batch is handled. -/
theorem handle_cons {u : Update} {rest : List Update} (hbatch : s.batch = u :: rest) (now later : Time) :
    let s' := s.handle secrets settings world link now later
    s'.next = u.updateId + 1 ∧ s'.current = s.current ++ [u] ∧ (s'.batch = [] ∨ s'.batch = rest) := by
  unfold Polling.handle
  rw [hbatch]
  refine ⟨rfl, rfl, ?_⟩
  dsimp only
  split
  · exact .inl rfl
  · exact .inr rfl

theorem handle_nil (hbatch : s.batch = []) (now later : Time) :
    s.handle secrets settings world link now later = s := by
  unfold Polling.handle
  rw [hbatch]

theorem Inv.handle (h : s.Inv) (now later : Time) : (s.handle secrets settings world link now later).Inv := by
  cases hbatch : s.batch with
  | nil =>
    rw [handle_nil hbatch]
    exact h
  | cons u rest =>
    obtain ⟨hnext, hcurrent, hrest⟩ : _ ∧ _ ∧ _ := handle_cons hbatch now later
    have hasc := hbatch ▸ h.batch
    obtain ⟨hu, hasc⟩ := List.pairwise_cons.mp hasc
    have hbound : s.next ≤ u.updateId := h.above u (hbatch ▸ List.mem_cons_self)
    refine ⟨?_, ?_, ?_, ?_⟩
    · rw [hcurrent]
      refine List.pairwise_append.mpr ⟨h.current, List.pairwise_singleton _ _, fun w hw x hx => ?_⟩
      rw [List.mem_singleton.mp hx]
      exact (h.below w hw).trans_le hbound
    · rw [hcurrent, hnext]
      intro w hw
      rcases List.mem_append.mp hw with hw | hw
      · have := h.below w hw
        omega
      · rw [List.mem_singleton.mp hw]
        exact Nat.lt_succ_self _
    · rcases hrest with hrest | hrest <;> rw [hrest]
      · exact List.Pairwise.nil
      · exact hasc
    · rw [hnext]
      rcases hrest with hrest | hrest <;> rw [hrest]
      · simp
      · exact hu

theorem Inv.step (h : s.Inv) (hdoc : getUpdates.Documented) (ha : Permits getUpdates s act) :
    (s.step secrets settings world link act).Inv := by
  cases act with
  | poll kept answer => exact h.poll hdoc ha.2
  | pollFails => exact h
  | handle now later => exact h.handle now later
  | restart =>
    refine ⟨List.Pairwise.nil, ?_, List.Pairwise.nil, ?_⟩
    · simp [Polling.step, restart]
    · simp [Polling.step, restart]
  | database auth => exact ⟨h.current, h.below, h.batch, h.above⟩

theorem Inv.goOn (h : s.Inv) (hdoc : getUpdates.Documented)
    (hp : Permitted secrets settings world link getUpdates s acts) :
    (s.goOn secrets settings world link acts).Inv := by
  induction acts generalizing s with
  | nil => exact h
  | cons act acts ih => exact ih (h.step hdoc hp.1) hp.2

/-! ### An update that Telegram keeps -/

/-- `v` was handled before it is confirmed, and a batch does not pass it over. -/
structure Due (v : Update) (s : Polling) : Prop where
  handled : v.updateId < s.next → v ∈ s.current
  reached : s.next ≤ v.updateId → v ∈ s.batch ∨ ∀ u ∈ s.batch, u.updateId < v.updateId

theorem Due.poll (h : Due v s) (hdoc : getUpdates.Documented) {kept answer : List Update}
    (ha : getUpdates s.offset kept answer) (hv : v ∈ kept) : Due v { s with batch := answer } := by
  refine ⟨h.handled, fun hnext => ?_⟩
  obtain ⟨rest, hrest⟩ := hdoc.earliest ha
  have hasc := (hdoc.ascending ha).filter fun u => decide (s.offset.getD 0 ≤ u.updateId)
  have hmem : v ∈ answer ++ rest := hrest ▸ List.mem_filter.mpr ⟨hv, decide_eq_true hnext⟩
  rw [← hrest] at hasc
  rcases List.mem_append.mp hmem with hmem | hmem
  · exact .inl hmem
  · exact .inr fun u hu => (List.pairwise_append.mp hasc).2.2 u hu v hmem

theorem Due.handle (h : Due v s) (hs : s.Inv) (now later : Time) :
    Due v (s.handle secrets settings world link now later) := by
  cases hbatch : s.batch with
  | nil =>
    rw [handle_nil hbatch]
    exact h
  | cons u rest =>
    obtain ⟨hnext, hcurrent, hrest⟩ : _ ∧ _ ∧ _ := handle_cons hbatch now later
    have hbound : s.next ≤ u.updateId := hs.above u (hbatch ▸ List.mem_cons_self)
    have hu := (List.pairwise_cons.mp (hbatch ▸ hs.batch)).1
    refine ⟨?_, ?_⟩
    · intro hlt
      rw [hnext] at hlt
      rw [hcurrent]
      by_cases hbelow : v.updateId < s.next
      · exact List.mem_append_left _ (h.handled hbelow)
      · rcases h.reached (Nat.not_lt.mp hbelow) with hmem | hall
        · rw [hbatch] at hmem
          rcases List.mem_cons.mp hmem with rfl | hmem
          · exact List.mem_append_right _ List.mem_cons_self
          · have := hu v hmem
            omega
        · have := hall u (hbatch ▸ List.mem_cons_self)
          omega
    · intro hle
      rw [hnext] at hle
      have hlater : v ∈ rest ∨ ∀ w ∈ rest, w.updateId < v.updateId := by
        rcases h.reached (by omega) with hmem | hall
        · rw [hbatch] at hmem
          rcases List.mem_cons.mp hmem with rfl | hmem
          · omega
          · exact .inl hmem
        · exact .inr fun w hw => hall w (hbatch ▸ List.mem_cons_of_mem _ hw)
      rcases hrest with hrest | hrest <;> rw [hrest]
      · exact .inr (by simp)
      · exact hlater

theorem Due.step (h : Due v s) (hs : s.Inv) (hdoc : getUpdates.Documented) (ha : Permits getUpdates s act)
    (hv : act.Keeps v) : Due v (s.step secrets settings world link act) := by
  cases act with
  | poll kept answer => exact h.poll hdoc ha.2 hv
  | pollFails => exact h
  | handle now later => exact h.handle hs now later
  | restart => exact hv.elim
  | database auth => exact ⟨h.handled, h.reached⟩

theorem Due.goOn (h : Due v s) (hs : s.Inv) (hdoc : getUpdates.Documented)
    (hp : Permitted secrets settings world link getUpdates s acts) (hv : ∀ act ∈ acts, act.Keeps v) :
    Due v (s.goOn secrets settings world link acts) := by
  induction acts generalizing s with
  | nil => exact h
  | cons act acts ih =>
    have hact := hv act List.mem_cons_self
    exact ih (h.step hs hdoc hp.1 hact) (hs.step hdoc hp.1) hp.2 fun a ha => hv a (List.mem_cons_of_mem _ ha)

/-- An update above what the process asks for next has not been passed over when it polls. -/
theorem due_of_le (hbatch : s.batch = []) (hv : s.next ≤ v.updateId) : Due v s :=
  ⟨fun hlt => absurd hv (Nat.not_le.mpr hlt), fun _ => .inr (by simp [hbatch])⟩

/-! ### The bot -/

/-- The updates that a run of the bot is made of. -/
def updates (events : List Event) : List Update := events.filterMap fun e => match e with
  | .update u _ _ => some u
  | _ => none

/-- The bot has done what it does on these events. -/
structure Follows (secrets : Secrets) (settings : Settings) (world : World) (link : String → String → String)
    (s : Polling) (events : List Event) : Prop where
  bot : s.bot = played secrets settings world link events
  updates : updates events = s.earlier ++ s.current

theorem follows_step {events : List Event} (h : Follows secrets settings world link s events) (act : Act) :
    ∃ more, Follows secrets settings world link (s.step secrets settings world link act) (events ++ more) := by
  obtain ⟨hbot, hupdates⟩ := h
  have quiet : ∀ {t : Polling}, t.bot = s.bot → t.earlier ++ t.current = s.earlier ++ s.current →
      ∃ more, Follows secrets settings world link t (events ++ more) := by
    intro t hb hu
    exact ⟨[], by rw [List.append_nil, hb, hbot], by rw [List.append_nil, hu, hupdates]⟩
  have one : ∀ {t : Polling} (e : Event), t.bot = s.bot.after secrets settings world link e →
      t.earlier ++ t.current = s.earlier ++ s.current ++ Polling.updates [e] →
      ∃ more, Follows secrets settings world link t (events ++ more) := by
    intro t e hb hu
    refine ⟨[e], by rw [played_snoc, hb, hbot], ?_⟩
    rw [hu, ← hupdates]
    exact List.filterMap_append
  cases act with
  | poll kept answer => exact quiet rfl rfl
  | pollFails => exact quiet rfl rfl
  | handle now later =>
    show ∃ more, Follows _ _ _ _ (s.handle secrets settings world link now later) _
    unfold Polling.handle
    cases s.batch with
    | nil => exact quiet rfl rfl
    | cons u rest => exact one (.update u now later) rfl (List.append_assoc _ _ _).symm
  | restart => exact one .restart rfl rfl
  | database auth => exact one (.database auth) rfl (List.append_nil _).symm

theorem follows_goOn {events : List Event} (h : Follows secrets settings world link s events) (acts : List Act) :
    ∃ more, Follows secrets settings world link (s.goOn secrets settings world link acts) (events ++ more) := by
  induction acts generalizing s events with
  | nil => exact ⟨[], by rwa [List.append_nil]⟩
  | cons act acts ih =>
    obtain ⟨more, hmore⟩ := follows_step h act
    obtain ⟨rest, hrest⟩ := ih hmore
    exact ⟨more ++ rest, List.append_assoc events more rest ▸ hrest⟩

end Invariant

/-- Whatever is answered, whatever fails and whenever a process ends: a process handles updates in
ascending order of their identifiers, so each at most once; the bot is as if it had been given them
one by one; and an update that Telegram keeps from some poll on, not below the offset of that poll,
is handled before the process asks for anything above it. -/
theorem updates_handled (secrets : Secrets) (settings : Settings) (world : World)
    (link : String → String → String) {getUpdates : GetUpdates} (hdoc : getUpdates.Documented)
    {acts : List Act} (h : Permitted secrets settings world link getUpdates {} acts) :
    let s := goOn secrets settings world link {} acts
    (s.current.Pairwise fun u v => u.updateId < v.updateId) ∧
      (∃ events, s.bot = played secrets settings world link events ∧ updates events = s.earlier ++ s.current) ∧
      ∀ before kept answer after v, acts = before ++ .poll kept answer :: after →
        (goOn secrets settings world link {} before).next ≤ v.updateId → v ∈ kept →
        (∀ act ∈ after, act.Keeps v) → v.updateId < s.next → v ∈ s.current := by
  intro s
  obtain ⟨events, hf⟩ : ∃ more, Follows secrets settings world link s ([] ++ more) :=
    follows_goOn ⟨rfl, rfl⟩ acts
  refine ⟨(Inv.start.goOn hdoc h).current, ⟨_, hf.bot, hf.updates⟩, ?_⟩
  rintro before kept answer after v rfl hle hv hafter
  obtain ⟨hbefore, hrest⟩ := permitted_append.mp h
  have hinv := Inv.start.goOn hdoc hbefore
  have hall : ∀ act ∈ Act.poll kept answer :: after, act.Keeps v := by
    intro act hact
    rcases List.mem_cons.mp hact with rfl | hact
    · exact hv
    · exact hafter act hact
  have hdue := (due_of_le hrest.1.1 hle).goOn hinv hdoc hrest hall
  rw [← goOn_append] at hdue
  exact hdue.handled

/-! The first of two messages is handled without success, and a poll fails. -/

/-- The first hundred updates at or above the offset. -/
def firstHundred : GetUpdates := fun offset kept answer =>
  kept.Pairwise (fun u v => u.updateId < v.updateId) ∧
    answer = (kept.filter fun u => decide (offset.getD 0 ≤ u.updateId)).take 100

theorem documented_firstHundred : firstHundred.Documented where
  ascending h := h.1
  earliest h := h.2 ▸ List.take_prefix _ _
  prompt h u hu := by
    have hnone := List.take_eq_nil_iff.mp h.2.symm
    have hfilter := List.filter_eq_nil_iff.mp (hnone.resolve_left (by decide)) u hu
    simpa using hfilter

def startMessage (id : Nat) : Update :=
  { updateId := id, message := some { chat := ⟨1, "private"⟩, sender := some 1, text := some "/start" } }

def oneUser : Settings := ⟨[1], true, "https://files.example.com"⟩

/-- The first call of all fails. -/
def firstCallFails : World := ⟨fun calls _ => if calls = [] then some .other else none, fun _ => ""⟩

def retried : List Act :=
  [.poll [startMessage 5, startMessage 7] [startMessage 5, startMessage 7], .handle 0 0, .pollFails,
    .poll [startMessage 7] [startMessage 7], .handle 0 0]

theorem permitted_retried :
    Permitted plainSecrets oneUser firstCallFails (fun _ _ => "") firstHundred {} retried :=
  ⟨⟨rfl, by decide, rfl⟩, trivial, rfl, ⟨rfl, by decide, rfl⟩, trivial, trivial⟩

theorem updates_handled_retried : startMessage 7 ∈
    (goOn plainSecrets oneUser firstCallFails (fun _ _ => "") {} retried).current := by
  refine (updates_handled plainSecrets oneUser firstCallFails (fun _ _ => "") documented_firstHundred
    permitted_retried).2.2 [] _ _ _ (startMessage 7) rfl (by decide) (by simp) ?_ (by decide)
  intro act hact
  simp only [List.mem_cons, List.not_mem_nil, or_false] at hact
  rcases hact with rfl | rfl | rfl | rfl
  · trivial
  · trivial
  · exact List.mem_cons_self
  · trivial

/-! ### Rounds -/

/-- A poll and one pass of the loop. -/
structure Round where
  kept : List Update
  answer : List Update
  now : Time
  later : Time

/-- A batch is done before the next poll. -/
def round (s : Polling) (r : Round) : List Act :=
  if s.batch = [] then [.poll r.kept r.answer, .handle r.now r.later] else [.handle r.now r.later]

section Rounds

variable (secrets : Secrets) (settings : Settings) (world : World) (link : String → String → String)

def rounds : Polling → List Round → List Act
  | _, [] => []
  | s, r :: rest =>
    s.round r ++ rounds (s.goOn secrets settings world link (s.round r)) rest

end Rounds

section Progress

variable {secrets : Secrets} {settings : Settings} {world : World} {link : String → String → String}
  {getUpdates : GetUpdates} {s : Polling} {v : Update} {kept : List Update} {r : Round} {rest : List Round}

/-- The updates up to `v` that were kept at first and have not been handled. -/
def waiting (kept : List Update) (v : Update) (s : Polling) : List Update :=
  kept.filter fun u => decide (s.next ≤ u.updateId) && decide (u.updateId ≤ v.updateId)

/-- Nothing new has come up to `v`. -/
def Old (kept : List Update) (v : Update) (l : List Update) : Prop :=
  ∀ u ∈ l, u.updateId ≤ v.updateId → u ∈ kept

theorem mem_waiting {u : Update} :
    u ∈ waiting kept v s ↔ u ∈ kept ∧ s.next ≤ u.updateId ∧ u.updateId ≤ v.updateId := by
  simp [waiting]

/-- Handling an update leaves fewer to wait for. -/
theorem waiting_handle (hs : s.Inv) (hold : Old kept v s.batch) {u : Update} {tail : List Update}
    (hbatch : s.batch = u :: tail) (now later : Time) :
    (waiting kept v (s.handle secrets settings world link now later)).length ≤ (waiting kept v s).length - 1 := by
  obtain ⟨hnext, -⟩ : _ ∧ _ ∧ _ := handle_cons hbatch now later
  have hbound : s.next ≤ u.updateId := hs.above u (hbatch ▸ List.mem_cons_self)
  have hfilter : waiting kept v (s.handle secrets settings world link now later) =
      (waiting kept v s).filter fun w => decide (u.updateId < w.updateId) := by
    unfold waiting
    rw [hnext, List.filter_filter]
    refine List.filter_congr fun w _ => ?_
    rw [Bool.eq_iff_iff]
    simp only [Bool.and_eq_true, decide_eq_true_eq]
    omega
  rw [hfilter]
  by_cases hle : u.updateId ≤ v.updateId
  · have hmem : u ∈ waiting kept v s :=
      mem_waiting.mpr ⟨hold u (hbatch ▸ List.mem_cons_self) hle, hbound, hle⟩
    have hlt : ((waiting kept v s).filter fun w => decide (u.updateId < w.updateId)).length <
        (waiting kept v s).length := List.length_filter_lt_length_iff_exists.mpr ⟨u, hmem, by simp⟩
    omega
  · have hnone : ((waiting kept v s).filter fun w => decide (u.updateId < w.updateId)) = [] := by
      refine List.filter_eq_nil_iff.mpr fun w hw => ?_
      have := (mem_waiting.mp hw).2.2
      simp only [decide_eq_true_eq]
      omega
    rw [hnone]
    exact Nat.zero_le _

/-- A round handles an update, whether or not `handle` raises. -/
theorem waiting_round (hs : s.Inv) (hdoc : getUpdates.Documented) (hold : Old kept v s.batch)
    (hv : v ∈ r.kept) (hr : Old kept v r.kept)
    (hp : Permitted secrets settings world link getUpdates s (s.round r)) :
    let s' := s.goOn secrets settings world link (s.round r)
    (waiting kept v s').length ≤ (waiting kept v s).length - 1 ∧ Old kept v s'.batch := by
  have hhandle : ∀ t : Polling, t.Inv → Old kept v t.batch → t.next = s.next →
      (t.batch = [] → v.updateId < s.next) →
      (waiting kept v (t.handle secrets settings world link r.now r.later)).length ≤
        (waiting kept v s).length - 1 ∧
      Old kept v (t.handle secrets settings world link r.now r.later).batch := by
    intro t ht holdt hnext hempty
    have hsame : waiting kept v t = waiting kept v s := by
      unfold waiting
      rw [hnext]
    cases hbatch : t.batch with
    | nil =>
      rw [handle_nil hbatch, hsame]
      have hnone : waiting kept v s = [] := by
        refine List.eq_nil_iff_forall_not_mem.mpr fun u hu => ?_
        have := (mem_waiting.mp hu).2
        have := hempty hbatch
        omega
      rw [hnone]
      exact ⟨Nat.le_refl _, holdt⟩
    | cons u tail =>
      obtain ⟨-, -, hrest⟩ : _ ∧ _ ∧ _ := handle_cons hbatch r.now r.later
      refine ⟨hsame ▸ waiting_handle ht holdt hbatch r.now r.later, fun w hw => ?_⟩
      rcases hrest with hrest | hrest <;> rw [hrest] at hw
      · cases hw
      · exact holdt w (hbatch ▸ List.mem_cons_of_mem _ hw)
  unfold round at hp ⊢
  by_cases hbatch : s.batch = []
  · rw [if_pos hbatch] at hp ⊢
    have hanswer := hp.1.2
    refine hhandle { s with batch := r.answer } (hs.poll hdoc hanswer) ?_ rfl fun hnil => ?_
    · intro u hu
      exact hr u (List.mem_filter.mp ((hdoc.earliest hanswer).subset hu)).1
    · change r.answer = [] at hnil
      rw [hnil] at hanswer
      exact hdoc.prompt hanswer v hv
  · rw [if_neg hbatch] at hp ⊢
    exact hhandle s hs hold rfl fun hnil => absurd hnil hbatch

theorem next_rounds (hs : s.Inv) (hdoc : getUpdates.Documented) (hv : v ∈ kept) (hold : Old kept v s.batch)
    {rs : List Round} (hrs : ∀ r ∈ rs, v ∈ r.kept ∧ Old kept v r.kept)
    (hp : Permitted secrets settings world link getUpdates s (s.rounds secrets settings world link rs))
    (hlen : (waiting kept v s).length ≤ rs.length) :
    v.updateId < (s.goOn secrets settings world link (s.rounds secrets settings world link rs)).next := by
  induction rs generalizing s with
  | nil =>
    by_contra hle
    have hmem : v ∈ waiting kept v s := mem_waiting.mpr ⟨hv, Nat.not_lt.mp hle, Nat.le_refl _⟩
    rw [List.eq_nil_of_length_eq_zero (Nat.le_zero.mp hlen)] at hmem
    cases hmem
  | cons r rs ih =>
    obtain ⟨hpr, hprest⟩ := permitted_append.mp hp
    obtain ⟨hvr, holdr⟩ := hrs r List.mem_cons_self
    obtain ⟨hless, hold'⟩ := waiting_round hs hdoc hold hvr holdr hpr
    rw [rounds, goOn_append]
    refine ih (hs.goOn hdoc hpr) hold' (fun r hr => hrs r (List.mem_cons_of_mem _ hr)) hprest ?_
    rw [List.length_cons] at hlen
    omega

theorem keeps_rounds {rs : List Round} (hrs : ∀ r ∈ rs, v ∈ r.kept) :
    ∀ act ∈ s.rounds secrets settings world link rs, act.Keeps v := by
  induction rs generalizing s with
  | nil => simp [rounds]
  | cons r rs ih =>
    intro act hact
    rcases List.mem_append.mp hact with hact | hact
    · unfold round at hact
      split at hact
      · simp only [List.mem_cons, List.not_mem_nil, or_false] at hact
        rcases hact with rfl | rfl
        · exact hrs r List.mem_cons_self
        · trivial
      · rw [List.mem_singleton.mp hact]
        trivial
    · exact ih (fun r hr => hrs r (List.mem_cons_of_mem _ hr)) act hact

end Progress

/-- From every state in which the process polls, an update that Telegram keeps is handled after as
many rounds as updates are kept up to it, whether or not `handle` raises. -/
theorem rounds_catch_up {secrets : Secrets} {settings : Settings} {world : World}
    {link : String → String → String} {getUpdates : GetUpdates} (hdoc : getUpdates.Documented)
    {acts : List Act} (h : Permitted secrets settings world link getUpdates {} acts) {v : Update}
    {kept : List Update} {rs : List Round} :
    let s := goOn secrets settings world link {} acts
    s.batch = [] → s.next ≤ v.updateId → v ∈ kept →
      (∀ r ∈ rs, v ∈ r.kept ∧ ∀ u ∈ r.kept, u.updateId ≤ v.updateId → u ∈ kept) →
      (kept.filter fun u => decide (s.next ≤ u.updateId) && decide (u.updateId ≤ v.updateId)).length ≤ rs.length →
      Permitted secrets settings world link getUpdates s (s.rounds secrets settings world link rs) →
      v ∈ (s.goOn secrets settings world link (s.rounds secrets settings world link rs)).current := by
  intro s hbatch hnext hv hrs hlen hp
  have hs : s.Inv := Inv.start.goOn hdoc h
  have hold : Old kept v s.batch := by
    rw [hbatch]
    intro u hu
    cases hu
  exact ((due_of_le hbatch hnext).goOn hs hdoc hp (keeps_rounds fun r hr => (hrs r hr).1)).handled
    (next_rounds hs hdoc hv hold hrs hp hlen)

def twoRounds : List Round :=
  [⟨[startMessage 5, startMessage 7], [startMessage 5, startMessage 7], 0, 0⟩,
    ⟨[startMessage 5, startMessage 7], [startMessage 7], 0, 0⟩]

theorem rounds_catch_up_two : startMessage 7 ∈ (goOn plainSecrets oneUser firstCallFails (fun _ _ => "") {}
    (rounds plainSecrets oneUser firstCallFails (fun _ _ => "") {} twoRounds)).current := by
  have hcatch := @rounds_catch_up plainSecrets oneUser firstCallFails (fun _ _ => "") firstHundred
    documented_firstHundred [] trivial (startMessage 7) [startMessage 5, startMessage 7] twoRounds
  refine hcatch rfl (by decide) (by simp) ?_ (by decide) ?_
  · intro r hr
    simp only [twoRounds, List.mem_cons, List.not_mem_nil, or_false] at hr
    rcases hr with rfl | rfl
    · exact ⟨by simp, fun u hu _ => hu⟩
    · exact ⟨by simp, fun u hu _ => hu⟩
  · exact ⟨⟨rfl, by decide, rfl⟩, trivial, ⟨rfl, by decide, rfl⟩, trivial, trivial⟩

end Polling

end Mnema.Telegram
