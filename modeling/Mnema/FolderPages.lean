import Mnema.Changes
import Mnema.Lib.Paging
import Mathlib.Data.Prod.Lex
import Mathlib.Data.String.Basic

/-! `GET /v1/items/{item_id}/children`: a folder read page by page while other transactions change
it. -/

namespace Mnema

/-! ### The endpoint -/

/-- `ORDER BY name, id`. -/
def nameAndId (row : FileProviderItem) : String ×ₗ String := toLex (row.name, row.id)

/-- The children of a folder in the order of the query. -/
def childrenOf (d : Db) (itemId : String) : List FileProviderItem :=
  (d.fpItems.rows.filter (·.parentId == some itemId)).insertionSort fun r r' => nameAndId r ≤ nameAndId r'

structure ChildrenPage where
  items : List RemoteItem
  nextOffset : Option Int

/-- `max(1, min(limit, 500))`. -/
def clampLimit (limit : Int) : Int := max 1 (min limit 500)

/-- `children`: the folder is looked up in one state and its rows are read in a later one. -/
def children (allowTestDelete : Bool) (d d' : Db) (itemId : String) (limit offset : Int) :
    Except PyError ChildrenPage :=
  let limit := clampLimit limit
  let offset := max 0 offset
  if (d.fpItems.get itemId).isNone then .error (.http 404 "parent item not found")
  else
    let rows := ((childrenOf d' itemId).drop offset.toNat).take (limit + 1).toNat
    let more := limit < rows.length
    .ok
      { items := (rows.take limit.toNat).map (itemPayload allowTestDelete)
        nextOffset := if more then some (offset + limit) else none }

/-- An enumeration that follows `nextOffset` until it is null, with the states in which the rows of
its pages were read and the items that the pages held. -/
inductive Enumeration (allowTestDelete : Bool) (itemId : String) (limit : Int) :
    Int → List Db → List RemoteItem → Prop where
  | last {d d' : Db} {offset : Int} {items : List RemoteItem}
      (h : children allowTestDelete d d' itemId limit offset = .ok ⟨items, none⟩) :
      Enumeration allowTestDelete itemId limit offset [d'] items
  | more {d d' : Db} {offset next : Int} {items rest : List RemoteItem} {states : List Db}
      (h : children allowTestDelete d d' itemId limit offset = .ok ⟨items, some next⟩)
      (hrest : Enumeration allowTestDelete itemId limit next states rest) :
      Enumeration allowTestDelete itemId limit offset (d' :: states) (items ++ rest)

/-! ### The listing -/

variable {allowTestDelete : Bool} {d d' : Db} {itemId : String} {limit : Int}

/-- The names and identifiers of the children, in order. -/
def childKeys (itemId : String) (d : Db) : List (String ×ₗ String) := (childrenOf d itemId).map nameAndId

theorem mem_childrenOf {row : FileProviderItem} :
    row ∈ childrenOf d itemId ↔ row ∈ d.fpItems.rows ∧ row.parentId = some itemId := by
  unfold childrenOf
  rw [List.mem_insertionSort, List.mem_filter, beq_iff_eq]

theorem nodup_childKeys : (childKeys itemId d).Nodup := by
  have hids : (childrenOf d itemId).Pairwise fun r r' => r.id ≠ r'.id := by
    have hperm := List.perm_insertionSort (fun r r' => nameAndId r ≤ nameAndId r')
      (d.fpItems.rows.filter (·.parentId == some itemId))
    have hrows := (List.pairwise_map.mp d.fpItems.nodup).filter (·.parentId == some itemId)
    exact (hperm.pairwise_iff fun hne => hne.symm).mpr hrows
  unfold childKeys
  rw [List.Nodup, List.pairwise_map]
  exact hids.imp fun hne heq => hne (congrArg (·.2) (toLex_inj.mp heq))

theorem sorted_childKeys : (childKeys itemId d).Pairwise (· < ·) := by
  have hle : (childKeys itemId d).Pairwise (· ≤ ·) := by
    unfold childKeys childrenOf
    rw [List.pairwise_map]
    exact List.pairwise_insertionSort (fun r r' => nameAndId r ≤ nameAndId r') _
  exact (hle.and nodup_childKeys).imp fun h => lt_of_le_of_ne h.1 h.2

def remoteKey (item : RemoteItem) : String ×ₗ String := toLex (item.name, item.id)

theorem clampLimit_pos (limit : Int) : 0 < clampLimit limit := by
  unfold clampLimit
  omega

theorem children_ok {offset : Nat} {page : ChildrenPage}
    (h : children allowTestDelete d d' itemId limit offset = .ok page) :
    page.items.map remoteKey = Paging.page offset (clampLimit limit).toNat (childKeys itemId d') ∧
    page.nextOffset = if offset + (clampLimit limit).toNat < (childKeys itemId d').length then
      some ((offset : Int) + clampLimit limit) else none := by
  have hpos := clampLimit_pos limit
  unfold children at h
  by_cases hfolder : (d.fpItems.get itemId).isNone
  · rw [if_pos hfolder] at h
    cases h
  · rw [if_neg hfolder] at h
    obtain rfl := Except.ok.inj h
    have hoffset : (max 0 (offset : Int)).toNat = offset := by omega
    have hlimit : (clampLimit limit + 1).toNat = (clampLimit limit).toNat + 1 := by omega
    constructor
    · simp only [hoffset, hlimit]
      unfold Paging.page childKeys
      rw [List.take_take, Nat.min_eq_left (Nat.le_succ _), List.map_map, ← List.map_drop, ← List.map_take]
      rfl
    · have hlength : (childKeys itemId d').length = (childrenOf d' itemId).length := List.length_map ..
      simp only [hoffset, hlimit, hlength, List.length_take, List.length_drop]
      have hmax : max 0 (offset : Int) = offset := by omega
      rw [hmax]
      split <;> split <;> first | rfl | omega

/-! ### Whole enumerations -/

theorem enumeration_returned {offset : Int} {states : List Db} {items : List RemoteItem}
    (h : Enumeration allowTestDelete itemId limit offset states items) {n : Nat} (hn : offset = n) :
    Paging.Enumerates (clampLimit limit).toNat n (states.map (childKeys itemId)) ∧
    items.map remoteKey =
      Paging.returned (clampLimit limit).toNat n (states.map (childKeys itemId)) := by
  have hpos := clampLimit_pos limit
  induction h generalizing n with
  | last h =>
    subst hn
    obtain ⟨hitems, hnext⟩ := children_ok h
    constructor
    · by_contra hlt
      have hmore : n + (clampLimit limit).toNat < (childKeys itemId _).length := Nat.not_le.mp hlt
      rw [if_pos hmore] at hnext
      cases hnext
    · rw [hitems]
      exact (List.append_nil _).symm
  | @more d d' offset next items rest states h hrest ih =>
    subst hn
    obtain ⟨hitems, hnext⟩ := children_ok h
    by_cases hmore : n + (clampLimit limit).toNat < (childKeys itemId d').length
    · rw [if_pos hmore] at hnext
      have hoffset : next = ((n + (clampLimit limit).toNat : Nat) : Int) := by
        have hh := Option.some.inj hnext
        omega
      obtain ⟨henum, hrestItems⟩ := ih hoffset
      constructor
      · cases states with
        | nil => exact henum.elim
        | cons d'' states => exact ⟨hmore, henum⟩
      · rw [List.map_append, hitems, hrestItems]
        rfl
    · rw [if_neg hmore] at hnext
      cases hnext

/-- The item is a child of the folder under that name. -/
def IsChild (itemId id name : String) (d : Db) : Prop :=
  ∃ row ∈ d.fpItems.rows, row.parentId = some itemId ∧ row.id = id ∧ row.name = name

theorem mem_childKeys {id name : String} :
    toLex (name, id) ∈ childKeys itemId d ↔ IsChild itemId id name d := by
  unfold childKeys IsChild
  rw [List.mem_map]
  constructor
  · rintro ⟨row, hrow, hkey⟩
    obtain ⟨hmem, hparent⟩ := mem_childrenOf.mp hrow
    have hpair : (row.name, row.id) = (name, id) := toLex_inj.mp hkey
    exact ⟨row, hmem, hparent, congrArg (·.2) hpair, congrArg (·.1) hpair⟩
  · rintro ⟨row, hmem, hparent, rfl, rfl⟩
    exact ⟨row, mem_childrenOf.mpr ⟨hmem, hparent⟩, rfl⟩

/-- An item has one name in every state, so that it is returned as often as its name and identifier
are. -/
theorem count_items {offset : Int} {states : List Db} {items : List RemoteItem} {id name : String}
    (h : Enumeration allowTestDelete itemId limit offset states items) {n : Nat} (hn : offset = n)
    (hchild : ∀ d ∈ states, IsChild itemId id name d) :
    items.countP (·.id == id) =
      (Paging.returned (clampLimit limit).toNat n (states.map (childKeys itemId))).count
        (toLex (name, id)) := by
  obtain ⟨-, hitems⟩ := enumeration_returned h hn
  rw [← hitems, List.count, List.countP_map]
  apply List.countP_congr
  intro item hitem
  have hmem : remoteKey item ∈ items.map remoteKey := List.mem_map_of_mem hitem
  rw [hitems] at hmem
  obtain ⟨keys, hkeys, hkey⟩ := Paging.mem_of_mem_returned hmem
  obtain ⟨d, hd, rfl⟩ := List.mem_map.mp hkeys
  obtain ⟨row, hrow, -, hrowId, hrowName⟩ := mem_childKeys.mp hkey
  obtain ⟨row', hrow', -, hid, hname⟩ := hchild d hd
  simp only [Function.comp_apply, beq_iff_eq]
  constructor
  · intro heq
    have hget := d.fpItems.get_of_mem hrow
    have hget' := d.fpItems.get_of_mem hrow'
    have hsame : row.id = row'.id := by rw [hrowId, heq, hid]
    rw [hsame, hget'] at hget
    obtain rfl := Option.some.inj hget
    unfold remoteKey
    rw [heq, ← hrowName, hname]
  · intro heq
    exact congrArg (·.2) (toLex_inj.mp heq)

theorem enumeration_returns_once {states : List Db} {items : List RemoteItem} {id name : String}
    (h : Enumeration allowTestDelete itemId limit 0 states items)
    (hchild : ∀ d ∈ states, IsChild itemId id name d) :
    items.countP (·.id == id) = 1 ↔
      Paging.skips (clampLimit limit).toNat (toLex (name, id)) 0 (states.map (childKeys itemId)) =
        Paging.revisits (clampLimit limit).toNat (toLex (name, id)) 0
          (states.map (childKeys itemId)) := by
  rw [count_items (n := 0) h rfl hchild]
  apply Paging.count_returned_eq_one_iff (enumeration_returned (n := 0) h rfl).1
  intro keys hkeys
  obtain ⟨d, hd, rfl⟩ := List.mem_map.mp hkeys
  exact ⟨sorted_childKeys, mem_childKeys.mpr (hchild d hd)⟩

/-! ### Two uploads in the Inbox -/

def firstUpload : FileProviderItem :=
  { id := "1", parentId := some "inbox", name := "a.jpg", kind := .file, modifiedAt := 0 }

def secondUpload : FileProviderItem :=
  { id := "2", parentId := some "inbox", name := "b.jpg", kind := .file, modifiedAt := 0 }

def inboxWithTwo : Db :=
  { fpItems := ((Table.empty.insert
      { id := "inbox", parentId := some "root", name := "Inbox", kind := .folder, modifiedAt := 0 }).insert
      firstUpload).insert secondUpload }

/-- The first upload has been promoted. -/
def inboxWithOne : Db :=
  { fpItems := inboxWithTwo.fpItems.put
      { firstUpload with parentId := some "uploads", name := "7-a.jpg", archiveItemId := some 7 } }

theorem isChild_second : ∀ d ∈ [inboxWithTwo, inboxWithOne], IsChild "inbox" "2" "b.jpg" d := by
  have hrow : ∀ d ∈ [inboxWithTwo, inboxWithOne], secondUpload ∈ d.fpItems.rows := by decide +kernel
  exact fun d hd => ⟨secondUpload, hrow d hd, rfl, rfl, rfl⟩

theorem enumeration_returns_once_unchanged :
    [itemPayload false firstUpload, itemPayload false secondUpload].countP (·.id == "2") = 1 := by
  have henum : Enumeration false "inbox" 1 0 [inboxWithTwo, inboxWithTwo]
      ([itemPayload false firstUpload] ++ [itemPayload false secondUpload]) :=
    @Enumeration.more _ _ _ inboxWithTwo _ _ 1 _ _ _ rfl (@Enumeration.last _ _ _ inboxWithTwo _ _ _ rfl)
  have hchild : ∀ d ∈ [inboxWithTwo, inboxWithTwo], IsChild "inbox" "2" "b.jpg" d := fun d hd =>
    isChild_second d (by simp only [List.mem_cons, List.not_mem_nil, or_false, or_self] at hd; simp [hd])
  exact (enumeration_returns_once henum hchild).mpr (by decide +kernel)

theorem promotion_hides_sibling :
    ¬ ∀ (allowTestDelete : Bool) (itemId : String) (limit : Int) (states : List Db)
      (items : List RemoteItem) (id name : String),
      Enumeration allowTestDelete itemId limit 0 states items →
      (∀ d ∈ states, IsChild itemId id name d) → items.countP (·.id == id) = 1 := by
  intro h
  have henum : Enumeration false "inbox" 1 0 [inboxWithTwo, inboxWithOne]
      ([itemPayload false firstUpload] ++ []) :=
    @Enumeration.more _ _ _ inboxWithTwo _ _ 1 _ _ _ rfl (@Enumeration.last _ _ _ inboxWithOne _ _ _ rfl)
  exact absurd (h false "inbox" 1 _ _ "2" "b.jpg" henum isChild_second) (by decide)

end Mnema
