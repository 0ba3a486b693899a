import Mnema.ChangeJournal

/-! The client of `GET /v1/changes` follows the journal: what it has been sent is a part of
the journal from its start on, and its map has every item that no later row is about. -/

namespace Mnema

open PyText

def entryOf (c : FileProviderChange) : Entry String := ⟨c.sequence, c.itemId, lower c.operation == "delete"⟩

/-- What a page tells of a row, its item apart. -/
def delivery (c : FileProviderChange) : String × String := (lower c.operation, c.itemId)

theorem log_journal (d : Db) (allowTestDelete : Bool) :
    (d.journal allowTestDelete).log = d.changes.map entryOf := rfl

/-- The sequence number in the cursor of a client that was sent these rows. -/
def cursorAfter (sent : List FileProviderChange) : Nat := Journal.reached (sent.map entryOf)

theorem cursorAfter_eq (sent rows : List FileProviderChange) :
    cursorAfter (sent ++ rows) = (rows.getLast?.map (·.sequence)).getD (cursorAfter sent) := by
  rcases List.eq_nil_or_concat rows with rfl | ⟨init, last, rfl⟩
  · simp
  · simp [cursorAfter, Journal.reached, List.getLast?_append, entryOf]

/-! ### The queries of a page -/

/-- The answers to a request, any transactions having committed before each; the second
database is the one that the rows were read from. -/
def laterEnv (allowTestDelete : Bool) : Prog.Env (Db × Db) ChangesOp ChangesOp.Ans :=
  fun s o a s' => Db.Later allowTestDelete s.1 s'.1 ∧ a = s'.1.answer o ∧
    s'.2 = o.queried s'.1 s.2

section Page

variable {allowTestDelete : Bool} {d d' q : Db} {sent : List FileProviderChange}

/-- The value is the present one, unless an entry after the first `n` is about the item. -/
def Fresh (allowTestDelete : Bool) (n : Nat) (d : Db) (id : String) (v : Option RemoteItem) : Prop :=
  Journal.Apart id ((d.journal allowTestDelete).log.drop n) →
    v = (d.journal allowTestDelete).store id

theorem Fresh.later {n : Nat} {id : String} {v : Option RemoteItem}
    (h : Fresh allowTestDelete n d id v) (hn : n ≤ d.changes.length)
    (hl : Db.Later allowTestDelete d d') : Fresh allowTestDelete n d' id v := by
  obtain ⟨new, hlog, hstore⟩ := hl.extended
  intro hk
  rw [hlog, List.drop_append_of_le_length (by simpa [log_journal] using hn),
    Journal.apart_append] at hk
  exact (h hk.1).trans (hstore id hk.2).symm

theorem fresh_get (n : Nat) (d : Db) (id : String) :
    Fresh allowTestDelete n d id ((d.fpItems.get id).map (itemPayload allowTestDelete)) := fun _ => rfl

/-- A row of a page with the value that was read for it. -/
structure Served (allowTestDelete : Bool) (n : Nat) (d : Db)
    (r : FileProviderChange × Option RemoteItem) : Prop where
  fresh : Fresh allowTestDelete n d r.1.itemId r.2
  named : ∀ remote, r.2 = some remote → remote.id = r.1.itemId

def pageChange (r : FileProviderChange × Option RemoteItem) : PageChange :=
  ⟨lower r.1.operation, r.1.itemId, r.2⟩

theorem wp_changesOp {o : ChangesOp} {Q : o.Ans → Db × Db → Prop}
    (h : ∀ d', Db.Later allowTestDelete d d' → Q (d'.answer o) (d', o.queried d' q)) :
    (changesOp o).wp (fun _ _ => True) (laterEnv allowTestDelete) Q (fun _ _ => True) (d, q) := by
  refine ⟨trivial, fun a s hs => ?_⟩
  obtain ⟨d', q'⟩ := s
  obtain ⟨hl, rfl, hq⟩ := hs
  simp only at hq
  subst hq
  exact h d' hl

/-- The item of a row is loaded from the row before, or read now. -/
theorem loadItem_wp {n : Nat} (hd : d.Sound allowTestDelete)
    {loaded : Option FileProviderItem} (hloaded : ∀ item, loaded = some item →
      Fresh allowTestDelete n d item.id (some (itemPayload allowTestDelete item)))
    (itemId : String) :
    (loadItem loaded itemId).wp (fun _ _ => True) (laterEnv allowTestDelete)
      (fun found s => Db.Later allowTestDelete d s.1 ∧ s.2 = q ∧
        Fresh allowTestDelete n s.1 itemId (found.map (itemPayload allowTestDelete)) ∧
        ∀ item, found = some item → item.id = itemId) (fun _ _ => True) (d, q) := by
  have hread : (changesOp (.item itemId)).wp (fun _ _ => True) (laterEnv allowTestDelete)
      (fun found s => Db.Later allowTestDelete d s.1 ∧ s.2 = q ∧
        Fresh allowTestDelete n s.1 itemId (found.map (itemPayload allowTestDelete)) ∧
        ∀ item, found = some item → item.id = itemId) (fun _ _ => True) (d, q) :=
    wp_changesOp fun d' hl => ⟨hl, rfl, fresh_get n d' itemId, fun _ hi => Table.key_of_get hi⟩
  cases loaded with
  | none => exact hread
  | some item =>
    unfold loadItem
    dsimp only
    split
    · rename_i hid
      subst hid
      exact ⟨.refl hd, rfl, hloaded item rfl, fun _ hi => congrArg _ (Option.some.inj hi).symm⟩
    · exact hread

theorem pagePayload_wp {n : Nat} (hn : n ≤ d.changes.length) (hd : d.Sound allowTestDelete)
    {loaded : Option FileProviderItem} (hloaded : ∀ item, loaded = some item →
      Fresh allowTestDelete n d item.id (some (itemPayload allowTestDelete item)))
    (rows : List FileProviderChange) :
    (pagePayload allowTestDelete loaded rows).wp (fun _ _ => True) (laterEnv allowTestDelete)
      (fun payload s => Db.Later allowTestDelete d s.1 ∧ s.2 = q ∧
        ∃ served : List (FileProviderChange × Option RemoteItem), served.map Prod.fst = rows ∧ payload = served.map pageChange ∧
          ∀ r ∈ served, Served allowTestDelete n s.1 r) (fun _ _ => True) (d, q) := by
  induction rows generalizing d loaded with
  | nil => exact ⟨.refl hd, rfl, [], rfl, rfl, fun _ hr => absurd hr List.not_mem_nil⟩
  | cons row rest ih =>
    refine (Prog.wp_bind _ _).mpr ((loadItem_wp hd hloaded row.itemId).post ?_)
    rintro found ⟨d', q'⟩ ⟨hl, hq, hfresh, hid⟩
    simp only at hl hq hfresh
    subst hq
    have hn' : n ≤ d'.changes.length := by
      obtain ⟨new, hnew⟩ := hl.changes
      rw [hnew, List.length_append]
      omega
    refine (Prog.wp_bind _ _).mpr ((ih hn' hl.sound fun item hi => ?_).post ?_)
    · subst hi
      exact hid item rfl ▸ hfresh
    · rintro payload ⟨d'', q''⟩ ⟨hl', hq', served, hrows, rfl, hserved⟩
      refine ⟨hl.trans hl', hq', (row, found.map (itemPayload allowTestDelete)) :: served, ?_, rfl,
        fun r hr => ?_⟩
      · rw [List.map_cons, hrows]
      · rcases List.mem_cons.mp hr with rfl | hr
        · refine ⟨hfresh.later hn' hl', fun remote hremote => ?_⟩
          obtain ⟨item, hitem, rfl⟩ := Option.map_eq_some_iff.mp hremote
          exact hid item hitem
        · exact hserved r hr

/-- A page for a client that was sent the rows `sent`, in a later database. -/
structure Answers (allowTestDelete : Bool) (sent : List FileProviderChange) (page : ChangesPage)
    (s : Db × Db) : Prop where
  reset : page.resetRequired = false
  generation : s.1.generation = some page.nextCursor.generation
  served : ∃ served : List (FileProviderChange × Option RemoteItem),
    page.changes = served.map pageChange ∧
    (∃ pending, s.1.changes = sent ++ served.map Prod.fst ++ pending) ∧
    page.nextCursor.sequence = cursorAfter (sent ++ served.map Prod.fst) ∧
    (∀ r ∈ served, Served allowTestDelete (sent ++ served.map Prod.fst).length s.1 r) ∧
    (page.more = false → s.2.changes = sent ++ served.map Prod.fst)

theorem Answers.later {page : ChangesPage} (h : Answers allowTestDelete sent page (d, q))
    (hl : Db.Later allowTestDelete d d') : Answers allowTestDelete sent page (d', q) := by
  obtain ⟨hreset, hgen, served, hpage, ⟨pending, hpending⟩, hcursor, hserved, hmore⟩ := h
  obtain ⟨new, hnew⟩ := hl.changes
  have hpending : d.changes = _ := hpending
  refine ⟨hreset, hl.generation hgen, served, hpage, ⟨pending ++ new, ?_⟩, hcursor, ?_, hmore⟩
  · show d'.changes = _
    rw [hnew, hpending, List.append_assoc]
  · intro r hr
    refine ⟨(hserved r hr).fresh.later ?_ hl, (hserved r hr).named⟩
    rw [hpending]
    exact (List.prefix_append _ _).length_le

/-- The query of a page answers with the rows that were not sent. -/
theorem changesAfter_eq (hd : d.Sound allowTestDelete) {pending : List FileProviderChange}
    (h : d.changes = sent ++ pending) (limit : Nat) :
    d.changesAfter (cursorAfter sent) limit = pending.take limit := by
  have hlog : (d.journal allowTestDelete).log = sent.map entryOf ++ pending.map entryOf := by
    rw [log_journal, h, List.map_append]
  obtain ⟨hsent, hpending⟩ := hd.coherent.after_reached hlog
  have hfilter : d.changes.filter (fun c => decide (cursorAfter sent < c.sequence)) = pending := by
    rw [h, List.filter_append, List.filter_eq_nil_iff.mpr, List.filter_eq_self.mpr, List.nil_append]
    · exact fun c hc => decide_eq_true (hpending _ (List.mem_map_of_mem hc))
    · intro c hc
      have hle : c.sequence ≤ cursorAfter sent := hsent _ (List.mem_map_of_mem hc)
      simpa using hle
  have hsorted : pending.Pairwise fun a b => a.sequence ≤ b.sequence := by
    have hinc := (List.pairwise_cons.mp hd.coherent.increasing).2
    rw [hlog, List.map_append, List.pairwise_append, List.map_map, List.pairwise_map] at hinc
    have hlt := hinc.2.1
    rw [List.map_map, List.pairwise_map] at hlt
    exact hlt.imp fun hab => Nat.le_of_lt hab
  unfold Db.changesAfter
  rw [hfilter, hsorted.insertionSort_eq]

theorem changesFrom_wp (hsent : ∃ pending, d.changes = sent ++ pending)
    {generation : String} (hg : d.generation = some generation) (limit : Nat) :
    (changesFrom allowTestDelete generation (cursorAfter sent) limit).wp (fun _ _ => True)
      (laterEnv allowTestDelete) (Answers allowTestDelete sent) (fun _ _ => True) (d, q) := by
  refine (Prog.wp_bind _ _).mpr (wp_changesOp fun d' hl => ?_)
  obtain ⟨pending, hpending⟩ : ∃ pending, d'.changes = sent ++ pending := by
    obtain ⟨pending, hpending⟩ := hsent
    obtain ⟨new, hnew⟩ := hl.changes
    exact ⟨pending ++ new, by rw [hnew, hpending, List.append_assoc]⟩
  have hrows : d'.answer (.changesAfter (cursorAfter sent) (limit + 1)) = pending.take (limit + 1) :=
    changesAfter_eq hl.sound hpending (limit + 1)
  rw [hrows]
  have htake : (pending.take (limit + 1)).take limit = pending.take limit := by
    rw [List.take_take, Nat.min_eq_left (Nat.le_succ limit)]
  rw [htake]
  have hlen : (sent ++ pending.take limit).length ≤ d'.changes.length := by
    rw [hpending, List.length_append, List.length_append, List.length_take]
    omega
  refine (Prog.wp_bind _ _).mpr ((pagePayload_wp hlen hl.sound (fun _ hi => by simp at hi)
    (pending.take limit)).post ?_)
  rintro payload ⟨d'', q'⟩ ⟨hl', hq, served, hserved, rfl, hfresh⟩
  simp only at hl' hq hfresh
  refine ⟨rfl, (hl.trans hl').generation hg, served, rfl, ?_, ?_, ?_, fun hmore => ?_⟩
  · obtain ⟨new, hnew⟩ := hl'.changes
    refine ⟨pending.drop limit ++ new, ?_⟩
    show d''.changes = _
    rw [hnew, hpending, hserved, ← List.append_assoc, List.append_assoc sent (pending.take limit),
      List.take_append_drop]
  · rw [hserved]
    exact (cursorAfter_eq sent (pending.take limit)).symm
  · rw [hserved]
    exact hfresh
  · have hall : pending.take limit = pending := by
      have hmore : decide (limit < (pending.take (limit + 1)).length) = false := hmore
      rw [List.length_take] at hmore
      refine List.take_of_length_le ?_
      simp only [decide_eq_false_iff_not] at hmore
      omega
    show q'.changes = _
    rw [hq, hserved, hall]
    exact hpending

end Page

/-! ### The client -/

theorem itemIdentifier_injective : Function.Injective itemIdentifier := by
  intro a b h
  unfold itemIdentifier at h
  split at h <;> split at h <;> simp_all

theorem itemIdentifier_ne_named_root (id : String) : itemIdentifier id ≠ .named "root" := by
  unfold itemIdentifier
  split <;> simp_all

/-- The items of the server, under the identifiers of the client. -/
def serverItems (allowTestDelete : Bool) (d : Db) : Identifier → Option RemoteItem
  | .rootContainer => (d.fpItems.get "root").map (itemPayload allowTestDelete)
  | .named id => if id = "root" then none else (d.fpItems.get id).map (itemPayload allowTestDelete)

/-- The fields of an item of the client are those of a row. -/
structure SameFields (row : FileProviderItem) (remote : RemoteItem) : Prop where
  id : remote.id = row.id
  parentId : remote.parentId = row.parentId
  name : remote.name = row.name
  kind : remote.kind = row.kind
  size : remote.size = row.size
  contentType : remote.contentType = row.contentType
  contentVersion : remote.contentVersion = row.contentVersion
  metadataVersion : remote.metadataVersion = toString row.metadataVersion
  modifiedAt : remote.modifiedAt = row.modifiedAt
  status : remote.status = row.status
  error : remote.error = row.errorMessage

/-- The client holds every row of the item table, field by field, and nothing else. -/
structure SameItems (items : Identifier → Option RemoteItem) (d : Db) : Prop where
  held : ∀ id row, d.fpItems.get id = some row →
    ∃ remote, items (itemIdentifier id) = some remote ∧ SameFields row remote
  known : ∀ k remote, items k = some remote →
    ∃ id row, k = itemIdentifier id ∧ d.fpItems.get id = some row ∧ SameFields row remote

theorem sameFields_itemPayload (allowTestDelete : Bool) (row : FileProviderItem) :
    SameFields row (itemPayload allowTestDelete row) :=
  ⟨rfl, rfl, rfl, rfl, rfl, rfl, rfl, rfl, rfl, rfl, rfl⟩

theorem sameItems_serverItems (allowTestDelete : Bool) (d : Db) :
    SameItems (serverItems allowTestDelete d) d := by
  refine ⟨fun id row hrow => ⟨itemPayload allowTestDelete row, ?_, sameFields_itemPayload _ row⟩,
    fun k remote hk => ?_⟩
  · by_cases hid : id = "root"
    · subst hid
      exact congrArg (Option.map _) hrow
    · rw [itemIdentifier, if_neg hid, serverItems, if_neg hid, hrow, Option.map_some]
  · cases k with
    | rootContainer =>
      obtain ⟨row, hrow, rfl⟩ := Option.map_eq_some_iff.mp hk
      exact ⟨"root", row, rfl, hrow, sameFields_itemPayload _ row⟩
    | named id =>
      by_cases hid : id = "root"
      · rw [serverItems, if_pos hid] at hk
        cases hk
      · rw [serverItems, if_neg hid] at hk
        obtain ⟨row, hrow, rfl⟩ := Option.map_eq_some_iff.mp hk
        exact ⟨id, row, (if_neg hid).symm, hrow, sameFields_itemPayload _ row⟩

section Client

variable {allowTestDelete : Bool} {d d' q : Db} {sent : List FileProviderChange}
  {client : ChangesClient}

theorem serverItems_of_store {items : Identifier → Option RemoteItem}
    (h : ∀ id, items (itemIdentifier id) = (d.journal allowTestDelete).store id)
    (hroot : items (.named "root") = none) : items = serverItems allowTestDelete d := by
  funext k
  cases k with
  | rootContainer => exact h "root"
  | named id =>
    by_cases hid : id = "root"
    · rw [hid, hroot]
      rfl
    · have hitem := h id
      rw [itemIdentifier, if_neg hid] at hitem
      rw [hitem, serverItems, if_neg hid]
      rfl

/-- The client was sent exactly these rows. -/
structure SentTo (allowTestDelete : Bool) (d : Db) (client : ChangesClient)
    (sent : List FileProviderChange) : Prop where
  follows : (⟨client.items ∘ itemIdentifier, sent.map entryOf⟩ : Replica String RemoteItem).Follows
    (d.journal allowTestDelete)
  root : client.items (.named "root") = none
  rows : ∃ pending, d.changes = sent ++ pending
  delivered : client.delivered = sent.map delivery
  cursor : (client.cursor = none ∧ sent = []) ∨ ∃ generation,
    client.cursor = some ⟨generation, cursorAfter sent⟩ ∧ d.generation = some generation

theorem SentTo.later (h : SentTo allowTestDelete d client sent) (hl : Db.Later allowTestDelete d d') :
    SentTo allowTestDelete d' client sent := by
  obtain ⟨pending, hpending⟩ := h.rows
  obtain ⟨new, hnew⟩ := hl.changes
  refine ⟨h.follows.later hl.extended, h.root, ⟨pending ++ new, by rw [hnew, hpending,
    List.append_assoc]⟩, h.delivered, h.cursor.imp id ?_⟩
  rintro ⟨generation, hc, hg⟩
  exact ⟨generation, hc, hl.generation hg⟩

/-- A request from the cursor of the client. -/
theorem changes_wp (h : SentTo allowTestDelete d client sent)
    (limit : Int) : (changes allowTestDelete client.cursor limit).wp (fun _ _ => True)
      (laterEnv allowTestDelete) (Answers allowTestDelete sent) (fun _ _ => True) (d, q) := by
  refine (Prog.wp_bind _ _).mpr (wp_changesOp fun d' hl => ?_)
  have hanswer : d'.answer .generation = d'.generation := rfl
  rw [hanswer]
  have h' := h.later hl
  rcases h'.cursor with ⟨hc, rfl⟩ | ⟨generation, hc, hg⟩
  · rw [hc]
    cases hg : d'.generation with
    | none => trivial
    | some generation => exact @changesFrom_wp _ _ _ [] h'.rows _ hg _
  · rw [hc, hg]
    dsimp only
    rw [if_neg (not_not.mpr rfl)]
    exact changesFrom_wp h'.rows hg _

theorem deleted_of_served {served : List (FileProviderChange × Option RemoteItem)}
    (hkept : ∀ r ∈ served, lower r.1.operation = "delete" → r.1.itemId ≠ "root") :
    (((served.map pageChange).filter (·.operation == "delete")).map
        (Identifier.named ·.itemId)).filter (· != .rootContainer) =
      (((served.map fun r => (entryOf r.1, r.2)).filter (·.1.deleted)).map (·.1.key)).map
        itemIdentifier := by
  induction served with
  | nil => rfl
  | cons r rest ih =>
    have hrest := ih fun r hr => hkept r (List.mem_cons_of_mem _ hr)
    by_cases hd : lower r.1.operation = "delete"
    · have hne := hkept r (List.mem_cons_self ..) hd
      simpa [pageChange, entryOf, hd, itemIdentifier, hne] using hrest
    · simpa [pageChange, entryOf, hd] using hrest

theorem updated_of_served {served : List (FileProviderChange × Option RemoteItem)}
    (hnamed : ∀ r ∈ served, ∀ remote, r.2 = some remote → remote.id = r.1.itemId) :
    (((served.map pageChange).filter (·.operation != "delete")).filterMap (·.item)).map
        (fun remote => (itemIdentifier remote.id, remote)) =
      (((served.map fun r => (entryOf r.1, r.2)).filter (!·.1.deleted)).filterMap fun r =>
        r.2.map fun v => (r.1.key, v)).map fun r => (itemIdentifier r.1, r.2) := by
  induction served with
  | nil => rfl
  | cons r rest ih =>
    have hrest := ih fun r hr => hnamed r (List.mem_cons_of_mem _ hr)
    by_cases hd : lower r.1.operation = "delete"
    · simpa [pageChange, entryOf, hd] using hrest
    · obtain ⟨row, v⟩ := r
      cases v with
      | none => simpa [pageChange, entryOf, hd] using hrest
      | some remote =>
        have hid : remote.id = row.itemId := hnamed _ (List.mem_cons_self ..) remote rfl
        simpa [pageChange, entryOf, hd, hid] using hrest

/-- What the client does with a page is what a replica does with it. -/
theorem items_apply (client : ChangesClient) {page : ChangesPage} (hreset : page.resetRequired = false)
    {served : List (FileProviderChange × Option RemoteItem)}
    (hpage : page.changes = served.map pageChange)
    (hnamed : ∀ r ∈ served, ∀ remote, r.2 = some remote → remote.id = r.1.itemId)
    (hkept : ∀ r ∈ served, lower r.1.operation = "delete" → r.1.itemId ≠ "root") :
    (client.apply page).items ∘ itemIdentifier = Replica.applyPage (client.items ∘ itemIdentifier)
        (served.map fun r => (entryOf r.1, r.2)) ∧
      (client.items (.named "root") = none → (client.apply page).items (.named "root") = none) := by
  have hitems : (client.apply page).items =
      Replica.putAll (Replica.removeAll client.items
        ((((served.map fun r => (entryOf r.1, r.2)).filter (·.1.deleted)).map (·.1.key)).map
          itemIdentifier))
        ((((served.map fun r => (entryOf r.1, r.2)).filter (!·.1.deleted)).filterMap fun r =>
          r.2.map fun v => (r.1.key, v)).map fun r => (itemIdentifier r.1, r.2)) := by
    rw [← deleted_of_served hkept, ← updated_of_served hnamed, ← hpage]
    simp [ChangesClient.apply, hreset]
  rw [hitems]
  refine ⟨?_, fun hroot => ?_⟩
  · rw [Replica.putAll_comp itemIdentifier_injective, Replica.removeAll_comp itemIdentifier_injective]
    rfl
  · rw [Replica.putAll_of_apart, Replica.removeAll_apply, hroot, ite_self]
    intro r hr
    obtain ⟨r', -, rfl⟩ := List.mem_map.mp hr
    exact itemIdentifier_ne_named_root _

theorem sentTo_apply (hd : d.Sound allowTestDelete) (h : SentTo allowTestDelete d client sent)
    {page : ChangesPage} (hp : Answers allowTestDelete sent page (d, q)) :
    ∃ rows, SentTo allowTestDelete d (client.apply page) (sent ++ rows) ∧
      ((client.apply page).more = some false → q.changes = sent ++ rows) := by
  obtain ⟨hreset, hgen, served, hpage, ⟨pending, hpending⟩, hcursor, hserved, hmore⟩ := hp
  have hpending : d.changes = sent ++ served.map Prod.fst ++ pending := hpending
  have hkept : ∀ r ∈ served, lower r.1.operation = "delete" → r.1.itemId ≠ "root" := by
    intro r hr
    refine hd.kept r.1 ?_
    rw [hpending]
    exact List.mem_append_left _ (List.mem_append_right _ (List.mem_map_of_mem hr))
  obtain ⟨hitems, hroot⟩ := items_apply client hreset hpage (fun r hr => (hserved r hr).named) hkept
  have hentries : (served.map fun r => (entryOf r.1, r.2)).map Prod.fst =
      (served.map Prod.fst).map entryOf := by
    simp [Function.comp_def]
  have hserves : (d.journal allowTestDelete).Serves (sent.map entryOf)
      (served.map fun r => (entryOf r.1, r.2)) := by
    refine ⟨pending.map entryOf, ?_, fun r hr hk => ?_⟩
    · rw [log_journal, hpending, hentries, List.map_append, List.map_append]
    · obtain ⟨row, hrow, rfl⟩ := List.mem_map.mp hr
      refine (hserved row hrow).fresh ?_
      rw [log_journal, hpending, List.map_append, List.drop_left' (by simp)]
      exact hk
  refine ⟨served.map Prod.fst, ⟨?_, hroot h.root, ⟨pending, hpending⟩, ?_, .inr ⟨_, ?_, hgen⟩⟩, ?_⟩
  · have htaken := h.follows.takePage hd.coherent hserves
    unfold Replica.takePage at htaken
    rw [hentries, ← List.map_append] at htaken
    rw [hitems]
    exact htaken
  · simp [ChangesClient.apply, hreset, h.delivered, hpage, delivery, pageChange, Function.comp_def]
  · simp only [ChangesClient.apply, hreset, Bool.false_eq_true, if_false, ← hcursor]
  · intro hm
    refine hmore ?_
    simpa [ChangesClient.apply, hreset] using hm

end Client

/-! ### Runs -/

section Runs

variable {σ : Type} {X : ExtEnv σ} {settings : Settings} {uuid5 : String → String}
  {allowTestDelete : Bool} {s s' : Sync σ}

/-- What holds between any two steps. -/
structure Sync.Consistent (allowTestDelete : Bool) (s : Sync σ) : Prop where
  idle : s.world.Idle
  sound : s.world.db.Sound allowTestDelete
  sent : ∃ sent, SentTo allowTestDelete s.world.db s.client sent ∧
    (s.client.more = some false → s.queried.changes = sent) ∧
    ∀ p, s.request = some p → s.client.more = none ∧
      p.wp (fun _ _ => True) (laterEnv allowTestDelete) (Answers allowTestDelete sent)
        (fun _ _ => True) (s.world.db, s.queried)

/-- Transactions leave a client and its request as they should be. -/
theorem Sync.Consistent.commit (h : s.Consistent allowTestDelete) {world : World σ}
    (hi : world.Idle) (hl : Db.Later allowTestDelete s.world.db world.db) :
    ({ s with world := world } : Sync σ).Consistent allowTestDelete := by
  obtain ⟨sent, hsent, hmore, hrequest⟩ := h.sent
  refine ⟨hi, hl.sound, sent, hsent.later hl, hmore, fun p hp => ?_⟩
  obtain ⟨hnone, hwp⟩ := hrequest p hp
  refine ⟨hnone, hwp.rely (R := fun t t' => Db.Later allowTestDelete t.1 t'.1 ∧ t'.2 = t.2) ?_
    ⟨hl, rfl⟩ ?_ fun _ _ _ _ _ => trivial⟩
  · intro o a t ht
    exact ⟨hl.trans ht.1, ht.2⟩
  · rintro page ⟨d, q⟩ ⟨d', q'⟩ ⟨hl, hq⟩ ha
    simp only at hl hq
    subst hq
    exact ha.later hl

theorem later_of_same {d d' : Db} (h : d.Sound allowTestDelete) (hf : d'.fpItems = d.fpItems)
    (hc : d'.changes = d.changes) (hs : d'.settings = d.settings)
    (hu : d'.uploadKeys = d.uploadKeys) : Db.Later allowTestDelete d d' := by
  have hjournal : d'.journal allowTestDelete = d.journal allowTestDelete :=
    Db.journal_sameTree ⟨hf, hc⟩
  refine ⟨⟨[], by rw [hc, List.append_nil]⟩, hjournal ▸ .refl _, ⟨[], by rw [hs, List.append_nil]⟩,
    hjournal ▸ h.coherent, ?_, hc ▸ h.kept⟩
  unfold Db.Rootless
  rw [hu]
  exact h.rootless

theorem consistent_step (h : s.Consistent allowTestDelete)
    (hs : SyncStep X settings uuid5 allowTestDelete s s') : s'.Consistent allowTestDelete := by
  obtain ⟨sent, hsent, hmore, hrequest⟩ := h.sent
  cases hs with
  | transaction hp he =>
    obtain ⟨hi, hl⟩ := later_of_transaction h.idle h.sound hp he
    exact h.commit hi hl
  | cleanup he =>
    obtain ⟨hi, hl⟩ := later_of_cleanup h.idle h.sound he
    exact h.commit hi hl
  | elsewhere hi hf hc hs hu => exact h.commit hi (later_of_same h.sound hf hc hs hu)
  | asked hr limit =>
    refine ⟨h.idle, h.sound, sent, ⟨hsent.follows, hsent.root, hsent.rows, hsent.delivered,
      hsent.cursor⟩, fun hm => by simp at hm, fun p hp => ⟨rfl, ?_⟩⟩
    obtain rfl := Option.some.inj hp
    exact changes_wp hsent limit
  | query hr =>
    obtain ⟨hnone, hwp⟩ := hrequest _ hr
    refine ⟨h.idle, h.sound, sent, hsent, fun hm => by simp [hnone] at hm, fun p hp => ⟨hnone, ?_⟩⟩
    obtain rfl := Option.some.inj hp
    exact hwp.2 _ _ ⟨.refl h.sound, rfl, rfl⟩
  | answered hr =>
    obtain ⟨rows, hafter, hlast⟩ := sentTo_apply h.sound hsent (hrequest _ hr).2
    exact ⟨h.idle, h.sound, _, hafter, hlast, fun p hp => by simp at hp⟩
  | dropped => exact ⟨h.idle, h.sound, sent, hsent, hmore, fun p hp => by simp at hp⟩

theorem sound_empty : ({} : Db).Sound allowTestDelete := by
  refine ⟨⟨List.pairwise_singleton _ _, fun _ _ => rfl, fun pre e post h _ => ?_⟩,
    fun k hk => absurd hk List.not_mem_nil, fun c hc => absurd hc List.not_mem_nil⟩
  cases pre <;> simp [Db.journal] at h

theorem consistent_start (x : σ) : (⟨World.fresh x, {}, none, {}⟩ : Sync σ).Consistent
    allowTestDelete := by
  refine ⟨⟨rfl, rfl⟩, sound_empty, [], ⟨?_, rfl, ⟨[], rfl⟩, rfl, .inl ⟨rfl, rfl⟩⟩,
    fun hm => by simp at hm, fun p hp => by simp at hp⟩
  exact Replica.Follows.empty sound_empty.coherent

theorem consistent_run (h : s.Consistent allowTestDelete)
    (hr : SyncRun X settings uuid5 allowTestDelete s s') : s'.Consistent allowTestDelete := by
  induction hr with
  | refl => exact h
  | tail _ hs ih => exact consistent_step ih hs

/-- In every interleaving of the transactions that change items with the queries of a client that
starts without a cursor: the rows of the journal have increasing sequence numbers, the client has
been sent a part of them from the start on, each once and in order; and when its last page says
that there is no more, and no transaction has added to the journal since the rows of the page
were read, the client has been sent all rows and its items are those of the server, field by field. -/
theorem changes_converge {x : σ}
    (hr : SyncRun X settings uuid5 allowTestDelete ⟨World.fresh x, {}, none, {}⟩ s) :
    s.world.db.changes.Pairwise (fun a b => a.sequence < b.sequence) ∧
    (∃ sent pending, s.world.db.changes = sent ++ pending ∧
      s.client.delivered = sent.map fun c => (lower c.operation, c.itemId)) ∧
    (s.client.more = some false → s.queried.changes = s.world.db.changes →
      s.client.delivered = s.world.db.changes.map (fun c => (lower c.operation, c.itemId)) ∧
      s.client.items = serverItems allowTestDelete s.world.db ∧
      SameItems s.client.items s.world.db) := by
  have h := consistent_run (consistent_start x) hr
  obtain ⟨sent, hsent, hmore, -⟩ := h.sent
  refine ⟨?_, ?_, fun hm hq => ?_⟩
  · have hinc := (List.pairwise_cons.mp h.sound.coherent.increasing).2
    rw [log_journal, List.map_map, List.pairwise_map] at hinc
    exact hinc
  · obtain ⟨pending, hpending⟩ := hsent.rows
    exact ⟨sent, pending, hpending, hsent.delivered⟩
  · have hall : s.world.db.changes = sent := hq.symm.trans (hmore hm)
    have hcopy := hsent.follows.caught_up (by rw [log_journal, hall])
    have hitems : s.client.items = serverItems allowTestDelete s.world.db :=
      serverItems_of_store (fun id => congrFun hcopy id) hsent.root
    refine ⟨by rw [hall]; exact hsent.delivered, hitems, ?_⟩
    rw [hitems]
    exact sameItems_serverItems allowTestDelete s.world.db

end Runs

/-! ### On the host -/

section Host

variable {settings : Settings} {uuid5 : String → String} {allowTestDelete : Bool}

/-- The answers where nothing is committed in between. -/
def ChangesOp.atOnce (s : Db × Db) (o : ChangesOp) : o.Ans × (Db × Db) :=
  (s.1.answer o, (s.1, o.queried s.1 s.2))

theorem run_request {p : ChangesCode ChangesPage} {s : Sync Host} {page : ChangesPage}
    {t : Db × Db} (hr : s.request = some p)
    (he : p.exec ChangesOp.atOnce (s.world.db, s.queried) = (.ok page, t)) :
    SyncRun (Host.env .plain) settings uuid5 allowTestDelete s
      { s with request := some (.ret page), queried := t.2 } := by
  induction p generalizing s with
  | ret a =>
    obtain ⟨ha, rfl⟩ := Prod.mk.inj he
    obtain rfl := Except.ok.inj ha
    rw [← hr]
  | raise e => simp [Prog.exec] at he
  | call o k ih =>
    exact .head (.query hr) (ih (s.world.db.answer o) (s := { s with
      request := some (k (s.world.db.answer o)), queried := o.queried s.world.db s.queried }) rfl he)

/-- An upload is created. -/
def createdOne : World Host :=
  ((World.fresh (Host.start [])).transact (createUpload plainSettings { name := "f", size := 1 }).void).2

/-- The client asks once, and has the folders and the new item. -/
theorem changes_converge_createdOne : ∃ s : Sync Host,
    SyncRun (Host.env .plain) plainSettings id true
      ⟨World.fresh (Host.start []), {}, none, {}⟩ s ∧
    s.world = createdOne ∧ s.client.delivered.length = 7 ∧
    s.client.items = serverItems true createdOne.db ∧ SameItems s.client.items createdOne.db := by
  have hcreated : SyncRun (Host.env .plain) plainSettings id true
      ⟨World.fresh (Host.start []), {}, none, {}⟩ ⟨createdOne, {}, none, {}⟩ :=
    .single (.transaction (.createUpload _)
      (Transactions.ends_outcome (M := transactions (Host.env .plain)) onHost_id _ _))
  have hasked := hcreated.tail (.asked rfl 500)
  obtain ⟨hpage, hchanges⟩ : (((changes true none 500).exec ChangesOp.atOnce
      (createdOne.db, {})).1.toOption.map fun page =>
        (page.resetRequired, page.more, page.changes.length)) = some (false, false, 7) ∧
      ((changes true none 500).exec ChangesOp.atOnce (createdOne.db, {})).2.2.changes =
        createdOne.db.changes := by
    decide +kernel
  generalize he : (changes true none 500).exec ChangesOp.atOnce (createdOne.db, {}) = outcome
    at hpage hchanges
  obtain ⟨e | page, t⟩ := outcome
  · simp [Except.toOption] at hpage
  obtain ⟨hreset, hmore, hseven⟩ : page.resetRequired = false ∧ page.more = false ∧
      page.changes.length = 7 := by
    simpa [Except.toOption] using hpage
  have hread := hasked.trans (run_request rfl he)
  have hdone := hread.tail (.answered rfl)
  refine ⟨_, hdone, rfl, ?_, ((changes_converge hdone).2.2 ?_ hchanges).2⟩
  · simp [ChangesClient.apply, hreset, hseven]
  · simp [ChangesClient.apply, hreset, hmore]

end Host

end Mnema
