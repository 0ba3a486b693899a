import Mathlib.Data.List.TakeDrop
import Mnema.Projection
import Mnema.SafePaths
import Mnema.SealIntegrity

/-! The names that promotion and projection give to the item of an upload. -/

namespace Mnema

/-- `f"{archive.id}-"`. -/
def numbered (archiveId : Nat) : String := toString archiveId ++ "-"

/-- The name that `promote_upload` asks for. -/
def promotedName (archiveId : Nat) (name : String) : String :=
  if (numbered archiveId).toList.isPrefixOf name.toList then name else numbered archiveId ++ name

namespace Db

/-- Another child of the folder has the name. -/
def childTaken (d : Db) (parentId itemId name : String) : Bool :=
  (d.fpItems.first fun r => r.parentId == some parentId && r.name == name && r.id != itemId).isSome

/-- What `unique_child_name` returns. -/
def chosenName (d : Db) (parentId desired itemId : String) : Option String :=
  [desired, suffixed desired (String.ofList (itemId.toList.take 8)), suffixed desired itemId].find?
    fun name => !d.childTaken parentId itemId name

/-- The rows apart from the item are the same. -/
def SameBeside (d d' : Db) (itemId : String) : Prop :=
  ∀ r : FileProviderItem, r.id ≠ itemId → (r ∈ d'.fpItems.rows ↔ r ∈ d.fpItems.rows)

theorem childTaken_iff {d : Db} {parentId itemId name : String} :
    d.childTaken parentId itemId name = true ↔
      ∃ r ∈ d.fpItems.rows, r.parentId = some parentId ∧ r.name = name ∧ r.id ≠ itemId := by
  simp [childTaken, Table.first, and_assoc]

theorem SameBeside.childTaken {d d' : Db} {itemId : String} (h : d.SameBeside d' itemId)
    (parentId name : String) : d'.childTaken parentId itemId name = d.childTaken parentId itemId name := by
  rw [Bool.eq_iff_iff, childTaken_iff, childTaken_iff]
  constructor
  · rintro ⟨r, hr, hp, hn, hne⟩
    exact ⟨r, (h r hne).mp hr, hp, hn, hne⟩
  · rintro ⟨r, hr, hp, hn, hne⟩
    exact ⟨r, (h r hne).mpr hr, hp, hn, hne⟩

theorem SameBeside.chosenName {d d' : Db} {itemId : String} (h : d.SameBeside d' itemId)
    (parentId desired : String) : d'.chosenName parentId desired itemId =
      d.chosenName parentId desired itemId := by
  unfold Db.chosenName
  simp only [h.childTaken]

/-- The item is the only one of its archive item. -/
def Only (d : Db) (item : FileProviderItem) : Prop :=
  ∀ r ∈ d.fpItems.rows, r.archiveItemId.isSome → r.archiveItemId = item.archiveItemId → r.id = item.id

end Db

section Rules

variable {α β : Type} {c : Crypto} {w : World Host} {s : Store Path Bytes} {m : Option Path}
  {d d' : Db} {E : PyError → World Host → Prop} {P : Prop}

theorem performs_pure_bind {p : Flow α} {Q : α → World Host → Prop} :
    Performs c (p >>= pure) Q E w ↔ Performs c p Q E w :=
  performs_bind

theorem performs_firstFree {parentId itemId : String} {candidates : List String}
    {f : String → Flow β} {Q : β → World Host → Prop} (hw : w.Has s m d)
    (hnext : ∀ name, (candidates.find? fun name => !d.childTaken parentId itemId name) = some name →
      ∀ w', w'.Has s m d → (Performs c (f name) Q E w' ↔ P))
    (hnone : (candidates.find? fun name => !d.childTaken parentId itemId name) = none →
      ∀ e w', w'.Has s m d → (E e w' ↔ P)) :
    Performs c (firstFree parentId itemId candidates >>= f) Q E w ↔ P := by
  induction candidates generalizing w with
  | nil => exact hnone rfl _ w hw
  | cons name rest ih =>
    rw [performs_bind, firstFree]
    refine performs_query (a := (d.fpItems.first fun r =>
      r.parentId == some parentId && r.name == name && r.id != itemId).map (·.id)) hw
      (fun w hd => by simp [World.dbStep, hd]) fun w hw => ?_
    have htaken : d.childTaken parentId itemId name = ((d.fpItems.first fun r =>
        r.parentId == some parentId && r.name == name && r.id != itemId).map (·.id)).isSome := by
      simp [Db.childTaken]
    cases hclash : (d.fpItems.first fun r =>
        r.parentId == some parentId && r.name == name && r.id != itemId).map (·.id) with
    | none =>
      rw [hclash] at htaken
      exact hnext name (by simp [htaken]) w hw
    | some other =>
      rw [hclash] at htaken
      have hfind : ((name :: rest).find? fun name => !d.childTaken parentId itemId name) =
          rest.find? fun name => !d.childTaken parentId itemId name := by
        simp [htaken]
      rw [hfind] at hnext hnone
      exact performs_bind.symm.trans (ih hw hnext hnone)

theorem performs_uniqueChildName {parentId desired itemId : String} {f : String → Flow β}
    {Q : β → World Host → Prop} (hw : w.Has s m d)
    (hnext : ∀ name, d.chosenName parentId desired itemId = some name →
      ∀ w', w'.Has s m d → (Performs c (f name) Q E w' ↔ P))
    (hnone : d.chosenName parentId desired itemId = none → ∀ e w', w'.Has s m d → (E e w' ↔ P)) :
    Performs c (uniqueChildName parentId desired itemId >>= f) Q E w ↔ P :=
  performs_firstFree hw hnext hnone

theorem not_taken_of_chosen {parentId desired itemId name : String}
    (h : d.chosenName parentId desired itemId = some name) :
    d.childTaken parentId itemId name = false := by
  have hh := List.find?_some h
  simpa using hh

/-- An item that takes a name that was chosen for it. -/
theorem fpTaken_of_chosen {item row : FileProviderItem} {parentId name : String}
    (honly : d.Only item) (hfree : d.childTaken parentId item.id name = false)
    (hid : row.id = item.id) (ha : row.archiveItemId = item.archiveItemId)
    (hp : row.parentId = some parentId) (hn : row.name = name) : d.fpTaken row = false := by
  rw [← Bool.not_eq_true]
  intro htaken
  obtain ⟨r, hr, hclash⟩ := List.any_eq_true.mp htaken
  simp only [Bool.and_eq_true, bne_iff_ne, Bool.or_eq_true, beq_iff_eq] at hclash
  obtain ⟨hne, ⟨⟨-, hparent⟩, hname⟩ | ⟨hsome, harchive⟩⟩ := hclash
  · have hchild : d.childTaken parentId item.id name = true :=
      Db.childTaken_iff.mpr ⟨r, hr, hparent.trans hp, hname.trans hn, hid ▸ hne⟩
    rw [hfree] at hchild
    cases hchild
  · exact hne ((honly r hr hsome (harchive.trans ha)).trans hid.symm)

/-- The item in its place, and the change that says so. -/
def Db.withPlaced (d : Db) (item : FileProviderItem) (now : Time) : Db :=
  { d with fpItems := d.fpItems.put item }.withChange item now

theorem performs_place {item row : FileProviderItem} {parentId name : String}
    {f : Unit → Flow β} {Q : β → World Host → Prop} (hw : w.Has s m d)
    (hitem : d.fpItems.get item.id = some item) (honly : d.Only item)
    (hfree : d.childTaken parentId item.id name = false) (hid : row.id = item.id)
    (ha : row.archiveItemId = item.archiveItemId) (hp : row.parentId = some parentId)
    (hn : row.name = name)
    (hnext : ∀ now w', w'.Has s m (d.withPlaced row now) → (Performs c (f ()) Q E w' ↔ P)) :
    Performs c (db (.saveFpItem row) >>= fun _ => recordChange item.id >>= f) Q E w ↔ P := by
  have hrow := fpTaken_of_chosen honly hfree hid ha hp hn
  refine performs_saveFpItem hw hrow fun w hw => ?_
  rw [← hid] at hitem ⊢
  refine performs_recordChange row hw (Table.get_put_self hitem) ?_ hnext
  rw [Db.fpTaken_put rfl rfl rfl rfl rfl]
  exact hrow

/-- The item as it is promoted. -/
def FileProviderItem.promoted (item : FileProviderItem) (name : String) : FileProviderItem :=
  { item with name := name, parentId := some uploadsId, status := .ready, errorMessage := none }

theorem performs_promoteUpload {archive : ArchiveItem} {item : FileProviderItem}
    {Q : Unit → World Host → Prop} (hw : w.Has s m d) (hready : archive.isReady = true)
    (hitem : d.fpItems.get item.id = some item) (hstatus : item.status ≠ .ready)
    (honly : d.Only item)
    (hnext : ∀ name, d.chosenName uploadsId (promotedName archive.id item.name) item.id = some name →
      ∀ now w', w'.Has s m (d.withPlaced (item.promoted name) now) → (Q () w' ↔ P))
    (hnone : d.chosenName uploadsId (promotedName archive.id item.name) item.id = none →
      ∀ e w', w'.Has s m d → (E e w' ↔ P)) :
    Performs c (promoteUpload archive item.id) Q E w ↔ P := by
  unfold promoteUpload
  rw [if_neg (by simp [hready])]
  refine performs_query (a := some item) hw (fun w hd => by simp [World.dbStep, hd, hitem])
    fun w hw => ?_
  change Performs c (if item.status = .ready then _ else _) _ _ _ ↔ _
  rw [if_neg hstatus]
  change Performs c (uniqueChildName uploadsId (promotedName archive.id item.name) item.id >>= _)
    _ _ _ ↔ _
  refine performs_uniqueChildName hw (fun name hname w hw => ?_) hnone
  have hplaced := performs_place (c := c) (E := E) (P := P) (f := pure) hw hitem honly
    (not_taken_of_chosen hname) (show (item.promoted name).id = item.id from rfl) rfl rfl rfl
    fun now w hw => hnext name hname now w hw
  rw [performs_bind] at hplaced ⊢
  simp only [performs_pure_bind] at hplaced
  exact hplaced

theorem performs_projectUpload {uuid5 : String → String} {archive : ArchiveItem}
    {item : FileProviderItem} {original : List String} {Q : Nat → World Host → Prop}
    (hw : w.Has s m d) (hready : archive.isReady = true)
    (hprovider : archive.sourceProvider = uploadProvider)
    (hpath : safeRelativePath archive.originalPath = .ok original)
    (hfirst : (d.fpItems.first fun r => r.archiveItemId == some archive.id) = some item)
    (honly : d.Only item)
    (hstay : ∀ name, d.chosenName uploadsId (numbered archive.id ++ original.getLastD "") item.id =
      some name → item.parentId = some uploadsId → item.name = name →
      ∀ w', w'.Has s m d → (Q 0 w' ↔ P))
    (hmove : ∀ name, d.chosenName uploadsId (numbered archive.id ++ original.getLastD "") item.id =
      some name → (item.parentId ≠ some uploadsId ∨ item.name ≠ name) → ∀ now w',
      w'.Has s m (d.withPlaced { item with parentId := some uploadsId, name := name } now) →
      (Q 1 w' ↔ P))
    (hnone : d.chosenName uploadsId (numbered archive.id ++ original.getLastD "") item.id = none →
      ∀ e w', w'.Has s m d → (E e w' ↔ P)) :
    Performs c (projectArchive uuid5 archive) Q E w ↔ P := by
  have hitem : d.fpItems.get item.id = some item := Table.get_of_first hfirst
  have hother : archive.sourceProvider ≠ "icloud_photos" := by
    rw [hprovider]
    decide
  have hcollection : collectionOf archive.sourceProvider = uploadsId := by
    rw [collectionOf, if_pos hprovider]
  unfold projectArchive
  rw [if_neg (by simp [hready])]
  refine performs_query (a := some item) hw (fun w hd => by simp [World.dbStep, hd, hfirst])
    fun w hw => ?_
  rw [hpath]
  change Performs c (placeOf uuid5 archive original item.id >>= _) _ _ _ ↔ _
  unfold placeOf
  simp only [hcollection, if_neg hother]
  rw [performs_bind]
  refine performs_uniqueChildName hw (fun name hname w hw => ?_) hnone
  change Performs c (if item.parentId ≠ some uploadsId ∨ item.name ≠ name then _ else _) _ _ _ ↔ _
  by_cases hplace : item.parentId ≠ some uploadsId ∨ item.name ≠ name
  · rw [if_pos hplace]
    exact performs_place hw hitem honly (not_taken_of_chosen hname) rfl rfl rfl rfl
      (hmove name hname hplace)
  · rw [if_neg hplace]
    rw [not_or, not_ne_iff, not_ne_iff] at hplace
    exact hstay name hname hplace.1 hplace.2 w hw

end Rules

section Names

variable {archiveId : Nat} {name : String}

/-- A number and a dash hold neither a slash nor a dot. -/
theorem numbered_plain (archiveId : Nat) :
    '/' ∉ (numbered archiveId).toList ∧ '.' ∉ (numbered archiveId).toList := by
  have hlist : (numbered archiveId).toList = Nat.toDigits 10 archiveId ++ ['-'] := by
    unfold numbered
    rw [String.toList_append]
    congr 1
    exact Nat.toList_repr
  have hdigit : ∀ c ∈ Nat.toDigits 10 archiveId, c.isDigit = true := fun c hc =>
    Nat.isDigit_of_mem_toDigits (by decide) (by decide) hc
  rw [hlist]
  constructor
  · intro hm
    rcases List.mem_append.mp hm with hd | hd
    · exact absurd (hdigit _ hd) (by decide)
    · simp at hd
  · intro hm
    rcases List.mem_append.mp hm with hd | hd
    · exact absurd (hdigit _ hd) (by decide)
    · simp at hd

/-- What comes before the last dot begins with what the name begins with. -/
theorem stemSuffix_append {front rest : String} (hfront : '.' ∉ front.toList) :
    front.toList <+: (stemSuffix (front ++ rest)).1.toList := by
  unfold stemSuffix
  have hname : (front ++ rest).toList = front.toList ++ rest.toList := String.toList_append ..
  simp only [hname]
  split
  · rename_i ext stem hspan
    split
    · rw [hname]
      exact List.prefix_append _ _
    · rw [String.toList_ofList]
      have happend := List.span_eq_takeWhile_dropWhile (fun c : Char => c != '.')
        (front.toList ++ rest.toList).reverse
      rw [hspan] at happend
      obtain ⟨hext, hstem⟩ := Prod.mk.inj happend
      have hsplit : front.toList ++ rest.toList = stem.reverse ++ ['.'] ++ ext.reverse := by
        have hh : List.takeWhile (fun c => c != '.') (front.toList ++ rest.toList).reverse ++
            List.dropWhile (fun c => c != '.') (front.toList ++ rest.toList).reverse = _ :=
          List.takeWhile_append_dropWhile
        rw [← hext, ← hstem] at hh
        have hr := congrArg List.reverse hh
        simpa using hr.symm
      have hpre : front.toList <+: stem.reverse ++ ['.'] ++ ext.reverse :=
        hsplit ▸ List.prefix_append _ _
      have hdot : '.' ∈ stem.reverse ++ ['.'] := by simp
      rcases List.prefix_or_prefix_of_prefix hpre (List.prefix_append _ _) with h | h
      · rcases List.prefix_concat_iff.mp h with he | hstem
        · exact absurd (he ▸ hdot) hfront
        · exact hstem
      · exact absurd (h.subset hdot) hfront
  · rw [hname]
    exact List.prefix_append _ _

/-- Whatever name is chosen for a numbered name, it is numbered. -/
theorem numbered_chosen {d : Db} {parentId itemId chosen : String} (hname : FileName name)
    (h : d.chosenName parentId (numbered archiveId ++ name) itemId = some chosen) :
    (numbered archiveId).toList <+: chosen.toList := by
  obtain ⟨hslash, hdot⟩ := numbered_plain archiveId
  have hdash : '-' ∈ (numbered archiveId ++ name).toList := by
    unfold numbered
    simp
  have hfile : FileName (numbered archiveId ++ name) := by
    refine ⟨fun he => ?_, fun he => ?_, fun he => ?_, ?_⟩
    · simp [he] at hdash
    · simp [he] at hdash
    · simp [he] at hdash
    · rw [String.toList_append, List.mem_append, not_or]
      exact ⟨hslash, hname.slash⟩
  have hsuffixed : ∀ suffix, (numbered archiveId).toList <+:
      (suffixed (numbered archiveId ++ name) suffix).toList := by
    intro suffix
    unfold suffixed
    rw [hfile.posixParts]
    have hh := @stemSuffix_append (numbered archiveId) name hdot
    simp only [List.getLastD_cons, List.getLastD_nil, String.toList_append, List.append_assoc]
    exact hh.trans (List.prefix_append _ _)
  have hmem := List.mem_of_find?_eq_some h
  simp only [List.mem_cons, List.not_mem_nil, or_false] at hmem
  rcases hmem with he | he | he
  · rw [he, String.toList_append]
    exact List.prefix_append _ _
  · exact he ▸ hsuffixed _
  · exact he ▸ hsuffixed _

end Names

end Mnema
