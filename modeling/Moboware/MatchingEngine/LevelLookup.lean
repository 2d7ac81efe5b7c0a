import Mathlib.Data.List.Induction
import Moboware.MatchingEngine.BookEdits

/-! # Level lookup

`GetLevelAtPrice` answers with an optional that holds a pointer. A null pointer is a
value of the optional as any other: the answer for an absent price is engaged.
-/
namespace Moboware
open Library OrderLevel

namespace OrderBook
variable {c : TCompare}

/-- The outer option is the optional, the inner one its pointer. -/
def getLevelAtPrice (book : OrderBook c) (price : PriceType) : Option (Option OrderLevel) :=
  match book.orderBookMap.find? price with
  | some level => some (some level)
  -- `return nullptr` converts the pointer, not the absence of a value.
  | none => some none

/-- The book after a sequence of inserts. -/
def insertAll (book : OrderBook c) (inserts : List OrderInsertData) : OrderBook c :=
  inserts.foldl (fun book o => (book.insert o).1) book

@[simp] theorem insertAll_nil (book : OrderBook c) : book.insertAll [] = book := rfl

@[simp] theorem insertAll_append_singleton (book : OrderBook c) (inserts : List OrderInsertData)
    (o : OrderInsertData) :
    book.insertAll (inserts ++ [o]) = ((book.insertAll inserts).insert o).1 := by
  simp [insertAll]

/-- The orders of a price in insertion order. -/
def insertedAt (inserts : List OrderInsertData) (price : PriceType) : List OrderInsertData :=
  inserts.filter (fun o => o.price = price)

theorem insertedAt_append_singleton (inserts : List OrderInsertData) (o : OrderInsertData)
    (price : PriceType) : insertedAt (inserts ++ [o]) price =
      if price = o.price then insertedAt inserts price ++ [o] else insertedAt inserts price := by
  unfold insertedAt
  split_ifs with h
  · simp [h]
  · simp [Ne.symm h]

theorem insertedAt_ne_nil_iff {inserts : List OrderInsertData} {price : PriceType} :
    insertedAt inserts price ≠ [] ↔ ∃ o ∈ inserts, o.price = price := by
  simp [insertedAt,List.filter_eq_nil_iff]

/-- The levels of a book are the histories of their prices: a price without orders has no
level. -/
def Records (book : OrderBook c) (inserts : List OrderInsertData) : Prop :=
  ∀ price, book.orderBookMap.find? price =
    if insertedAt inserts price = [] then none else some ⟨insertedAt inserts price⟩

theorem empty_records : (empty : OrderBook c).Records [] := fun _ => rfl

theorem Records.queue_eq {book : OrderBook c} {inserts : List OrderInsertData}
    (h : book.Records inserts) (price : PriceType) :
    (book.orderBookMap.find? price).elim [] OrderLevel.timeQueue = insertedAt inserts price := by
  rw [h price]
  split_ifs with hnil
  · exact hnil.symm
  · rfl

theorem Records.insert {book : OrderBook c} {inserts : List OrderInsertData}
    (h : book.Records inserts) (o : OrderInsertData) :
    (book.insert o).1.Records (inserts ++ [o]) := by
  intro price
  rw [insert_find?,insertedAt_append_singleton]
  split_ifs with hp hnil hnil
  · exact absurd hnil (by simp)
  · rw [h.queue_eq,hp]
  · rw [h price,if_pos hnil]
  · rw [h price,if_neg hnil]

theorem insertAll_records (inserts : List OrderInsertData) :
    ((empty : OrderBook c).insertAll inserts).Records inserts := by
  induction inserts using List.reverseRecOn with
  | nil => exact empty_records
  | append_singleton inserts o ih =>
    rw [insertAll_append_singleton]
    exact ih.insert o

theorem Records.getLevelAtPrice {book : OrderBook c} {inserts : List OrderInsertData}
    (h : book.Records inserts) (price : PriceType) : book.getLevelAtPrice price =
      some (if insertedAt inserts price = [] then none else some ⟨insertedAt inserts price⟩) := by
  rw [OrderBook.getLevelAtPrice,h price]
  split_ifs <;> rfl

/-- What a lookup should answer after the inserts: a value exactly for the prices of
inserted orders, and then a pointer to the level that holds these orders. -/
def LooksUp (inserts : List OrderInsertData) (price : PriceType)
    (answer : Option (Option OrderLevel)) : Prop :=
  (answer.isSome = true ↔ ∃ o ∈ inserts, o.price = price) ∧
  ((∃ o ∈ inserts, o.price = price) → answer = some (some ⟨insertedAt inserts price⟩))

/-- The lookup answers as it should for the prices that were inserted, and for these
only: for all others its value is a null pointer. -/
theorem getLevelAtPrice_after_inserts_iff (c : TCompare) (inserts : List OrderInsertData)
    (price : PriceType) :
    LooksUp inserts price (((empty : OrderBook c).insertAll inserts).getLevelAtPrice price) ↔
      ∃ o ∈ inserts, o.price = price := by
  rw [(insertAll_records inserts).getLevelAtPrice price]
  constructor
  · exact fun h => h.1.mp rfl
  · intro h
    rw [if_neg (insertedAt_ne_nil_iff.mpr h)]
    exact ⟨iff_of_true rfl h,fun _ => rfl⟩

theorem getLevelAtPrice_of_empty_book :
    ¬ LooksUp [] 50 ((empty : OrderBook .greater).getLevelAtPrice 50) := by
  rintro ⟨h,_⟩
  obtain ⟨o,ho,_⟩ := h.mp rfl
  exact absurd ho List.not_mem_nil

end OrderBook
end Moboware
