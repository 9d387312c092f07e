import CleanArch.Catalog.Cursor
import CleanArch.Paging.Keyset

/-!
# The pages of the catalog

`get_paginated_items_keyset` and `get_paginated_items_offset` of `SqlAlchemyCatalogRepository`
(`app/repositories/catalog_repository.py`), the keyset endpoint (`app/routers/catalog_router.py`),
and a client that follows its cursors. The table may change between two requests: `tables k` is the
table at the request `k`.
-/

namespace CleanArch

open List Paging

variable {C : Type}

/-- A row of `catalog_items`; `columns` are those that are only returned. -/
structure CatalogItemModel (C : Type) where
  id : Int
  createdAt : DateTime
  columns : C

/-- The composite key `(created_at, id)`. -/
def itemKey (item : CatalogItemModel C) : Int ×ₗ Int := toLex (item.createdAt.instant, item.id)

inductive CatalogError where
  | invalidCursor (e : InvalidCursorException)
  | database

structure CursorPageResponse (C : Type) where
  items : List (CatalogItemModel C)
  nextCursor : Option String
  hasMore : Bool
  totalReturned : Nat

def getPaginatedItemsOffset (table : List (CatalogItemModel C)) (limit offset : Nat) :
    List (CatalogItemModel C) :=
  ((sortDesc itemKey table).drop offset).take limit

variable [PyChar] [CursorText]

/-- `get_paginated_items_keyset`: the items, `has_more` and the next cursor. -/
def getPaginatedItemsKeyset (table : List (CatalogItemModel C)) (limit : Nat)
    (cursorData : Option (DateTime × Int)) :
    List (CatalogItemModel C) × Bool × Option String :=
  let cursor := cursorData.map fun (createdAt, id) => toLex (createdAt.instant, id)
  let fetchedRows := (sortDesc itemKey (seek itemKey cursor table)).take (limit + 1)
  let hasMore := decide (limit < fetchedRows.length)
  let items := fetchedRows.take limit
  let nextCursor :=
    if hasMore then items.getLast?.map fun last => encodeCursor last.createdAt last.id else none
  (items, hasMore, nextCursor)

/-- `get_catalog_items_keyset_endpoint`. -/
def getCatalogItemsKeyset (table : List (CatalogItemModel C)) (cursor : Option String)
    (limit : Nat) : Except CatalogError (CursorPageResponse C) :=
  let respond (cursorData : Option (DateTime × Int)) : CursorPageResponse C :=
    let (items, hasMore, nextCursor) := getPaginatedItemsKeyset table limit cursorData
    ⟨items, nextCursor, hasMore, items.length⟩
  match cursor with
  | none => .ok (respond none)
  | some cursor =>
    match decodeCursor cursor with
    | .error e => .error (.invalidCursor e)
    | .ok (createdAt, .int id) => .ok (respond (some (createdAt, id)))
    | .ok _ => .error .database

/-- The pages that a client reads from the request `k` on, in at most `fuel` requests. -/
def followCursor (limit : Nat) (tables : Nat → List (CatalogItemModel C)) :
    Nat → Nat → Option String → Option (List (List (CatalogItemModel C)))
  | 0, _, _ => none
  | fuel + 1, k, cursor =>
    match getCatalogItemsKeyset (tables k) cursor limit with
    | .error _ => none
    | .ok page =>
      if page.hasMore then
        (followCursor limit tables fuel (k + 1) page.nextCursor).map (page.items :: ·)
      else some [page.items]

/-! ## The endpoint reads a page of the traversal -/

def rowCursor (item : CatalogItemModel C) : String := encodeCursor item.createdAt item.id

lemma getCatalogItemsKeyset_rowCursor (table : List (CatalogItemModel C))
    (last : Option (CatalogItemModel C)) (limit : Nat) :
    ∃ page, getCatalogItemsKeyset table (last.map rowCursor) limit = .ok page ∧
      page.items = (sortDesc itemKey (seek itemKey (last.map itemKey) table)).take limit ∧
      page.hasMore =
        decide (limit < (sortDesc itemKey (seek itemKey (last.map itemKey) table)).length) ∧
      (page.hasMore = true → page.nextCursor = page.items.getLast?.map rowCursor) := by
  have hpage : ∀ cursorData : Option (DateTime × Int),
      cursorData.map (fun (createdAt, id) => toLex (createdAt.instant, id)) = last.map itemKey →
      (getPaginatedItemsKeyset table limit cursorData).1 =
          (sortDesc itemKey (seek itemKey (last.map itemKey) table)).take limit ∧
        (getPaginatedItemsKeyset table limit cursorData).2.1 =
          decide (limit < (sortDesc itemKey (seek itemKey (last.map itemKey) table)).length) ∧
        ((getPaginatedItemsKeyset table limit cursorData).2.1 = true →
          (getPaginatedItemsKeyset table limit cursorData).2.2 =
            (getPaginatedItemsKeyset table limit cursorData).1.getLast?.map rowCursor) := by
    intro cursorData hcursor
    simp only [getPaginatedItemsKeyset, hcursor, take_take, length_take]
    refine ⟨by rw [Nat.min_eq_left (Nat.le_succ limit)], ?_, fun h => ?_⟩
    · rw [decide_eq_decide]
      omega
    · rw [if_pos h]
      rfl
  cases last with
  | none => exact ⟨_, rfl, hpage none rfl⟩
  | some item =>
    simp only [Option.map_some, getCatalogItemsKeyset, rowCursor, decodeCursor_encodeCursor]
    exact ⟨_, rfl, hpage (some (item.createdAt.utc.utc, item.id)) (by simp [itemKey])⟩

lemma followCursor_eq (limit : Nat) (tables : Nat → List (CatalogItemModel C)) (fuel k : Nat)
    (last : Option (CatalogItemModel C)) :
    followCursor limit tables fuel k (last.map rowCursor) =
      Paging.traverse itemKey limit tables fuel k (last.map itemKey) := by
  induction fuel generalizing k last with
  | zero => rfl
  | succ fuel ih =>
    obtain ⟨page, hpage, hitems, hmore, hnext⟩ :=
      getCatalogItemsKeyset_rowCursor (tables k) last limit
    simp only [followCursor, hpage, Paging.traverse]
    by_cases hlt : limit < (sortDesc itemKey (seek itemKey (last.map itemKey) (tables k))).length
    · have hm : page.hasMore = true := by simpa [hmore] using hlt
      rw [if_pos hm, if_pos hlt, hnext hm, ih, hitems]
    · have hm : ¬ page.hasMore = true := by simpa [hmore] using hlt
      rw [if_neg hm, if_neg hlt, hitems]

omit [PyChar] [CursorText] in
lemma nodup_itemKey {table : List (CatalogItemModel C)}
    (h : (table.map CatalogItemModel.id).Nodup) : (table.map itemKey).Nodup := by
  refine pairwise_map.mpr ((pairwise_map.mp h).imp fun hne heq => hne ?_)
  exact congrArg (fun x => (ofLex x).2) heq

/-! ## All pages -/

/-- The pages of a client that follows the cursors.

Of a table that stays, they are the table in descending order of `(created_at, id)`, cut as the
offset pages are. Of a table that changes between the requests, they have no row twice, and every
row that is there at all requests. -/
theorem keyset_traversal (limit : Nat) (hlimit : 1 ≤ limit) :
    (∀ table : List (CatalogItemModel C), (table.map CatalogItemModel.id).Nodup →
      ∃ fuel pages, followCursor limit (fun _ => table) fuel 0 none = some pages ∧
        pages.flatten.Perm table ∧
        pages.flatten.Pairwise (fun a b => itemKey b < itemKey a) ∧
        pages.flatten = ((List.range pages.length).map fun i =>
          getPaginatedItemsOffset table limit (i * limit)).flatten ∧
        ∀ i, pages.length ≤ i → getPaginatedItemsOffset table limit (i * limit) = []) ∧
    (∀ tables : Nat → List (CatalogItemModel C), (∀ k, ((tables k).map CatalogItemModel.id).Nodup) →
      (∀ j k a b, a ∈ tables j → b ∈ tables k → a.id = b.id →
        a.createdAt.instant = b.createdAt.instant) →
      ∀ fuel pages, followCursor limit tables fuel 0 none = some pages →
        (pages.flatten.map CatalogItemModel.id).Nodup ∧
        ∀ id, (∀ k < pages.length, id ∈ (tables k).map CatalogItemModel.id) →
          id ∈ pages.flatten.map CatalogItemModel.id) := by
  constructor
  · intro table hids
    have hkeys := nodup_itemKey hids
    obtain ⟨pages, htrav, hflat, hlen, hpages⟩ :=
      @traverse_static _ _ _ _ _ hlimit _ hkeys _ 0 none (Nat.lt_succ_self _)
    refine ⟨_, pages, (followCursor_eq limit _ _ 0 none).trans htrav, ?_, ?_, ?_, fun i hi => ?_⟩
    · rw [hflat]
      exact perm_sortDesc table
    · rw [hflat]
      exact desc_sortDesc hkeys
    · exact congrArg flatten hpages
    · have hle : (sortDesc itemKey table).length ≤ i * limit :=
        hlen.trans (Nat.mul_le_mul_right limit hi)
      rw [getPaginatedItemsOffset, drop_of_length_le hle, take_nil]
  · intro tables hids hstable fuel pages h
    have hkeys := fun k => nodup_itemKey (hids k)
    have htrav : Paging.traverse itemKey limit tables fuel 0 none = some pages :=
      (followCursor_eq limit tables fuel 0 none).symm.trans h
    -- two rows with one id have one key
    have hkey : ∀ j k a b, a ∈ tables j → b ∈ tables k → a.id = b.id → itemKey a = itemKey b :=
      fun j k a b ha hb hid =>
        congrArg toLex (Prod.ext (hstable j k a b ha hb hid) hid)
    obtain ⟨hne, hmem⟩ := traverse_mem htrav
    constructor
    · refine pairwise_map.mpr ((traverse_desc hlimit hkeys htrav).1.imp_of_mem ?_)
      intro a b ha hb hlt hid
      obtain ⟨j, ha⟩ := hmem a ha
      obtain ⟨k, hb⟩ := hmem b hb
      exact absurd hlt (by rw [hkey j k a b ha hb hid]; exact lt_irrefl _)
    · intro id hid
      obtain ⟨a, ha, rfl⟩ := mem_map.mp (hid 0 (length_pos_of_ne_nil hne))
      have hthere : ∀ k, 0 ≤ k → k < 0 + pages.length → itemKey a ∈ (tables k).map itemKey := by
        intro k _ hk
        obtain ⟨b, hb, hba⟩ := mem_map.mp (hid k (by omega))
        exact mem_map.mpr ⟨b, hb, hkey k 0 b a hb ha hba⟩
      obtain ⟨b, hb, hba⟩ := mem_map.mp (mem_traverse hlimit hkeys htrav hthere nofun)
      exact mem_map.mpr ⟨b, hb, congrArg (fun x => (ofLex x).2) hba⟩

omit [PyChar] [CursorText] in
/-- Two rows of one instant and a third, in pages of two. -/
theorem keyset_traversal_three :
    letI := asciiChar
    letI := rowText
    ∃ fuel pages, followCursor 2 (fun _ => [⟨1, ⟨5, none⟩, "a"⟩, ⟨2, ⟨5, some 0⟩, "b"⟩,
        (⟨3, ⟨4, none⟩, "c"⟩ : CatalogItemModel String)]) fuel 0 none = some pages ∧
      (pages.flatten.map CatalogItemModel.id).Nodup ∧
      pages.flatten.Perm [⟨1, ⟨5, none⟩, "a"⟩, ⟨2, ⟨5, some 0⟩, "b"⟩, ⟨3, ⟨4, none⟩, "c"⟩] := by
  let _ := asciiChar
  let _ := rowText
  obtain ⟨hstatic, hchange⟩ := keyset_traversal (C := String) 2 (by decide)
  obtain ⟨fuel, pages, hfollow, hperm, -⟩ := hstatic [⟨1, ⟨5, none⟩, "a"⟩, ⟨2, ⟨5, some 0⟩, "b"⟩,
    ⟨3, ⟨4, none⟩, "c"⟩] (by decide)
  refine ⟨fuel, pages, hfollow, (hchange _ (fun _ => by decide) (fun _ _ a b ha hb => ?_) fuel
    pages hfollow).1, hperm⟩
  simp only [mem_cons, not_mem_nil, or_false] at ha hb
  rcases ha with rfl | rfl | rfl <;> rcases hb with rfl | rfl | rfl <;> simp [DateTime.instant]

end CleanArch
