-- SUMMARY: A market context and the snapshot it is constructed from: which documents load, and what is loaded.
import NfEngine.Lib.Json
import NfEngine.Lib.FirstWins

/-!
# Market contexts

A shard constructs its market context from a JSON file. A file that is missing or cannot
be parsed leaves an empty market. The fields of a document are then read outside of the
`try` block, with accessors that throw: the construction fails on a document that is not
an object, and on a field that cannot be converted, in an item as well, which it would
otherwise have skipped or defaulted. The accessors are those of any JSON library that reads
fields with a default.
-/

namespace NfEngine

open Lib Lib.JsonLibrary Lib.FirstWins

structure MarketItem where
  itemId : UInt64
  sellerSessionId : UInt64
  name : String
  price : UInt64
  quantity : UInt32
  createdAt : UInt64
  deriving DecidableEq, Repr

structure MarketInfo where
  marketId : UInt8
  items : List MarketItem

/-- The entries of `m_items`, each under its own id. -/
structure MarketContext where
  marketId : UInt8
  nextItemId : UInt64
  items : List MarketItem

/-- What `loadSnapshot` finds under the path of the snapshot. -/
inductive SnapshotFile (J : Type) where
  | missing
  /-- The parser throws, which is caught. -/
  | malformed
  | document (j : J)

namespace MarketContext

variable {J E : Type} (lib : JsonLibrary J E)

/-- The fields of an item, in the order they are read. -/
def readItem (item : J) : Except E MarketItem := do
  let itemId ← lib.valueU64 item "item_id" 0
  let sellerSessionId ← lib.valueU64 item "seller_session_id" 0
  let name ← lib.valueString item "name" ""
  let price ← lib.valueU64 item "price" 0
  let quantity ← lib.valueU32 item "quantity" 0
  let createdAt ← lib.valueU64 item "created_at_sec" 0
  return ⟨itemId, sellerSessionId, name, price, quantity, createdAt⟩

/-- One round of the loop over the items. -/
def loadItem (items : List MarketItem) (item : J) : Except E (List MarketItem) :=
  if !lib.isObject item then
    .ok items
  else do
    let mi ← readItem lib item
    if mi.itemId = 0 then
      return items
    else
      return emplace MarketItem.itemId items mi

/-- What the loop runs over: without an array of items the function returns in front of it. -/
def itemsOf (j : J) : List J :=
  match lib.member? j "items" with
  | none => []
  | some items => if !lib.isArray items then [] else lib.elements items

def loadSnapshot (file : SnapshotFile J) (ctx : MarketContext) : Except E MarketContext :=
  match file with
  | .missing => .ok { ctx with nextItemId := 1 }
  | .malformed => .ok { ctx with nextItemId := 1 }
  | .document j => do
    let _version ← lib.valueU32 j "version" 1
    let nextItemId ← lib.valueU64 j "next_item_id" 1
    let items ← (itemsOf lib j).foldlM (loadItem lib) []
    return { ctx with nextItemId := nextItemId, items := items }

/-- The constructor. -/
def make (marketId : UInt8) (file : SnapshotFile J) : Except E MarketContext :=
  loadSnapshot lib file ⟨marketId, 1, []⟩

/-- `snapshot()`: the hash map is walked in an order of its own. -/
def Snapshot (ctx : MarketContext) (info : MarketInfo) : Prop :=
  info.marketId = ctx.marketId ∧ info.items.Perm ctx.items

/-! ## What should be loaded -/

/-- The item is an object, and its fields are missing or can be converted. -/
def itemFits (item : J) : Bool :=
  lib.isObject item && lib.fits lib.getU64 item "item_id" &&
    lib.fits lib.getU64 item "seller_session_id" && lib.fits lib.getString item "name" &&
    lib.fits lib.getU64 item "price" && lib.fits lib.getU32 item "quantity" &&
    lib.fits lib.getU64 item "created_at_sec"

/-- The fields of an item, with zero and the empty string for those that are missing. -/
def itemFields (item : J) : MarketItem where
  itemId := lib.fieldD lib.getU64 item "item_id" 0
  sellerSessionId := lib.fieldD lib.getU64 item "seller_session_id" 0
  name := lib.fieldD lib.getString item "name" ""
  price := lib.fieldD lib.getU64 item "price" 0
  quantity := lib.fieldD lib.getU32 item "quantity" 0
  createdAt := lib.fieldD lib.getU64 item "created_at_sec" 0

/-- The well-formed objects of the items array. -/
def wellFormed (j : J) : List MarketItem :=
  ((itemsOf lib j).filter (itemFits lib)).map (itemFields lib)

/-- One entry for each non-zero id of a well-formed item, with the fields of the first that
    has it, and nothing else. -/
structure Holds (j : J) (items : List MarketItem) : Prop where
  nodup : (items.map (·.itemId)).Nodup
  mem_iff : ∀ mi, mi ∈ items ↔ IsFirst MarketItem.itemId ((wellFormed lib j).filter (·.itemId ≠ 0)) mi

/-- The document is an object whose fields are missing or can be converted, and so are those of
    every object among its items. -/
structure Loadable (j : J) : Prop where
  object : lib.isObject j = true
  version : lib.fits lib.getU32 j "version" = true
  nextItemId : lib.fits lib.getU64 j "next_item_id" = true
  items : ∀ item ∈ itemsOf lib j, lib.isObject item = true → itemFits lib item = true

/-! ## Which documents load -/

section Laws

variable {lib} (laws : lib.Lawful)

include laws

/-- An item is read exactly when it is well formed, and then with its fields. -/
theorem readItem_eq_ok {item : J} (hfits : itemFits lib item = true) :
    readItem lib item = .ok (itemFields lib item) := by
  simp only [itemFits, Bool.and_eq_true] at hfits
  obtain ⟨⟨⟨⟨⟨⟨hobj, hid⟩, hseller⟩, hname⟩, hprice⟩, hquantity⟩, hcreated⟩ := hfits
  rw [readItem, laws.u64.value_eq_ok hobj hid, laws.u64.value_eq_ok hobj hseller,
    laws.string.value_eq_ok hobj hname, laws.u64.value_eq_ok hobj hprice,
    laws.u32.value_eq_ok hobj hquantity, laws.u64.value_eq_ok hobj hcreated]
  rfl

theorem completes_readItem (item : J) : Completes (readItem lib item) ↔ itemFits lib item = true := by
  refine ⟨fun h => ?_, fun hfits => ⟨_, readItem_eq_ok laws hfits⟩⟩
  obtain ⟨mi, h⟩ := h
  obtain ⟨_, hid, h⟩ := bind_eq_ok.mp h
  obtain ⟨_, hseller, h⟩ := bind_eq_ok.mp h
  obtain ⟨_, hname, h⟩ := bind_eq_ok.mp h
  obtain ⟨_, hprice, h⟩ := bind_eq_ok.mp h
  obtain ⟨_, hquantity, h⟩ := bind_eq_ok.mp h
  obtain ⟨_, hcreated, _⟩ := bind_eq_ok.mp h
  obtain ⟨hobj, hid⟩ := (laws.u64.completes_value _).mp ⟨_, hid⟩
  have hseller := ((laws.u64.completes_value _).mp ⟨_, hseller⟩).2
  have hname := ((laws.string.completes_value _).mp ⟨_, hname⟩).2
  have hprice := ((laws.u64.completes_value _).mp ⟨_, hprice⟩).2
  have hquantity := ((laws.u32.completes_value _).mp ⟨_, hquantity⟩).2
  have hcreated := ((laws.u64.completes_value _).mp ⟨_, hcreated⟩).2
  simp only [itemFits, hobj, hid, hseller, hname, hprice, hquantity, hcreated, Bool.and_self]

/-! ## The loop -/

/-- One round completes unless it meets an object with a field that cannot be converted. -/
theorem completes_loadItem (items : List MarketItem) (item : J) :
    Completes (loadItem lib items item) ↔ (lib.isObject item = true → itemFits lib item = true) := by
  unfold loadItem
  cases hobj : lib.isObject item with
  | false => simp [Completes]
  | true =>
    have hdone : ∀ mi : MarketItem, Completes (if mi.itemId = 0 then Except.ok items else
        Except.ok (emplace MarketItem.itemId items mi) : Except E (List MarketItem)) ↔ True := by
      intro mi
      split <;> simp [Completes]
    refine (completes_bind fun mi (_ : readItem lib item = .ok mi) => hdone mi).trans ?_
    rw [completes_readItem laws]
    simp

/-- What a round that completes makes of the entries. -/
theorem loadItem_eq_ok {items items' : List MarketItem} {item : J}
    (h : loadItem lib items item = .ok items') :
    items' = ((([item].filter (itemFits lib)).map (itemFields lib)).filter (·.itemId ≠ 0)).foldl
      (emplace MarketItem.itemId) items := by
  unfold loadItem at h
  split at h
  next hobj =>
    have hfits : itemFits lib item = false := by
      simp only [Bool.not_eq_true'] at hobj
      simp [itemFits, hobj]
    cases h
    simp [hfits]
  next =>
    obtain ⟨mi, hread, hitems⟩ := bind_eq_ok.mp h
    have hfits := (completes_readItem laws item).mp ⟨mi, hread⟩
    rw [readItem_eq_ok laws hfits] at hread
    cases hread
    split at hitems
    next hzero =>
      cases hitems
      simp [hfits, hzero]
    next hnonzero =>
      cases hitems
      simp [hfits, hnonzero]

theorem completes_loadItems (elements : List J) (items : List MarketItem) :
    Completes (elements.foldlM (loadItem lib) items) ↔
      ∀ item ∈ elements, lib.isObject item = true → itemFits lib item = true := by
  induction elements generalizing items with
  | nil => simp [Completes, pure, Except.pure]
  | cons item elements ih =>
    rw [List.foldlM_cons, List.forall_mem_cons]
    refine (completes_bind fun items' _ => ih items').trans ?_
    rw [completes_loadItem laws]

theorem loadItems_eq_ok {elements : List J} {items items' : List MarketItem}
    (h : elements.foldlM (loadItem lib) items = .ok items') :
    items' = (((elements.filter (itemFits lib)).map (itemFields lib)).filter
      (·.itemId ≠ 0)).foldl (emplace MarketItem.itemId) items := by
  induction elements generalizing items with
  | nil =>
    cases h
    rfl
  | cons item elements ih =>
    rw [List.foldlM_cons] at h
    obtain ⟨next, hnext, hrest⟩ := bind_eq_ok.mp h
    rw [← List.singleton_append, List.filter_append, List.map_append, List.filter_append,
      List.foldl_append, ← loadItem_eq_ok laws hnext]
    exact ih hrest

/-! ## The construction -/

/-- The construction completes on the documents that are loadable. -/
theorem completes_make (marketId : UInt8) (j : J) :
    Completes (make lib marketId (.document j)) ↔ Loadable lib j := by
  have hdone : ∀ ctx : MarketContext, Completes (.ok ctx : Except E MarketContext) ↔ True :=
    fun ctx => iff_of_true ⟨ctx, rfl⟩ trivial
  have hall := completes_bind fun version (_ : lib.valueU32 j "version" 1 = .ok version) =>
    completes_bind fun next (_ : lib.valueU64 j "next_item_id" 1 = .ok next) =>
    completes_bind fun items (_ : (itemsOf lib j).foldlM (loadItem lib) [] = .ok items) =>
      hdone ⟨marketId, next, items⟩
  refine hall.trans ?_
  rw [laws.u32.completes_value, laws.u64.completes_value, completes_loadItems laws]
  constructor
  · rintro ⟨⟨hobj, hversion⟩, ⟨_, hnext⟩, hitems, _⟩
    exact ⟨hobj, hversion, hnext, hitems⟩
  · rintro ⟨hobj, hversion, hnext, hitems⟩
    exact ⟨⟨hobj, hversion⟩, ⟨hobj, hnext⟩, hitems, trivial⟩

/-- What is constructed from a document that loads. -/
theorem make_eq_ok {marketId : UInt8} {j : J} {ctx : MarketContext}
    (h : make lib marketId (.document j) = .ok ctx) :
    ctx.marketId = marketId ∧ Holds lib j ctx.items := by
  obtain ⟨version, _, h⟩ := bind_eq_ok.mp h
  obtain ⟨next, _, h⟩ := bind_eq_ok.mp h
  obtain ⟨items, hitems, h⟩ := bind_eq_ok.mp h
  cases h
  have hfirsts : Firsts MarketItem.itemId ((wellFormed lib j).filter (·.itemId ≠ 0)) items := by
    rw [loadItems_eq_ok laws hitems]
    exact firsts_emplaceAll _
  exact ⟨rfl, hfirsts.nodup, hfirsts.mem_iff⟩

/-- A market context is constructed from a document and holds what it should exactly when the
    document is loadable: on every other document the constructor throws. -/
theorem snapshot_right_iff (marketId : UInt8) (j : J) :
    (∃ ctx, make lib marketId (.document j) = .ok ctx ∧
        ∀ info, ctx.Snapshot info → info.marketId = marketId ∧ Holds lib j info.items) ↔
      Loadable lib j := by
  rw [← completes_make laws marketId j]
  constructor
  · rintro ⟨ctx, hmake, _⟩
    exact ⟨ctx, hmake⟩
  · rintro ⟨ctx, hmake⟩
    obtain ⟨hid, hholds⟩ := make_eq_ok laws hmake
    refine ⟨ctx, hmake, ?_⟩
    rintro info ⟨hmarket, hperm⟩
    refine ⟨hmarket.trans hid, (hperm.map _).nodup_iff.mpr hholds.nodup, ?_⟩
    intro mi
    rw [hperm.mem_iff]
    exact hholds.mem_iff mi

end Laws

/-- An item whose id is missing, one that is no object, and two with one id. -/
def repeatedIdDocument : Sample :=
  .object [("next_item_id", .number 9),
    ("items", .array [.object [("name", .text "sword")], .number 17,
      .object [("item_id", .number 3), ("price", .number 250)],
      .object [("item_id", .number 3), ("price", .number 900)]])]

/-- It loads, and of the two items with one id the first is kept. -/
theorem snapshot_right_repeatedId :
    (∃ ctx, make Sample.library 1 (.document repeatedIdDocument) = .ok ctx ∧
        ∀ info, ctx.Snapshot info → info.marketId = 1 ∧
          Holds Sample.library repeatedIdDocument info.items) ∧
      wellFormed Sample.library repeatedIdDocument =
        [⟨0, 0, "sword", 0, 0, 0⟩, ⟨3, 0, "", 250, 0, 0⟩, ⟨3, 0, "", 900, 0, 0⟩] := by
  have hloads : Loadable Sample.library repeatedIdDocument :=
    (completes_make Sample.lawful 1 repeatedIdDocument).mp ⟨_, rfl⟩
  exact ⟨(snapshot_right_iff Sample.lawful 1 repeatedIdDocument).mpr hloads, rfl⟩

/-- One item has a text for its id: the construction throws, and all other items are lost with
    it. So it does for a document that is an array. -/
theorem snapshot_wrongType_throws :
    Sample.library.Lawful ∧
      make Sample.library 1 (.document (.object [("items", .array [.object [("item_id", .text "7")],
        .object [("item_id", .number 8)]])])) = .error .wrongType ∧
      make Sample.library 1 (.document (.array [])) = .error .notObject :=
  ⟨Sample.lawful, rfl, rfl⟩

end MarketContext

end NfEngine
