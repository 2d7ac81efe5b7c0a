import Mathlib.Data.List.Flatten
import Moboware.MatchingEngine.OrderBook

/-! # Trading the best order of a book

The front of a book is the first entry of its map with a non-empty queue. A round
of the matching loop acts on a book only through its front, so what a fill does
to the orders of the book is said here once.
-/
namespace Moboware
open Library OrderLevel
variable {c : TCompare}

namespace OrderBook

/-- The best order of a book, and what stands behind it. -/
structure Front (book : OrderBook c) where
  key : PriceType
  best : OrderInsertData
  queue : List OrderInsertData
  tail : List (PriceType × OrderLevel)
  entries_eq : book.orderBookMap.entries = (key,⟨best :: queue⟩) :: tail

/-- A property of every resting order and the key of the level that holds it. -/
def Forall (P : PriceType → OrderInsertData → Prop) (book : OrderBook c) : Prop :=
  ∀ e ∈ book.orderBookMap.entries, ∀ o ∈ e.2.timeQueue, P e.1 o

instance (P : PriceType → OrderInsertData → Prop) [∀ price o, Decidable (P price o)]
    (book : OrderBook c) : Decidable (book.Forall P) :=
  inferInstanceAs (Decidable (∀ e ∈ book.orderBookMap.entries, ∀ o ∈ e.2.timeQueue, P e.1 o))

theorem mem_orders {book : OrderBook c} {o : OrderInsertData} :
    o ∈ book.orders ↔ ∃ e ∈ book.orderBookMap.entries, o ∈ e.2.timeQueue := List.mem_flatMap

/-- The property survives a fill that leaves the order some volume. -/
def FillStable (P : PriceType → OrderInsertData → Prop) : Prop :=
  ∀ k o v, P k o → o.volume - v ≠ 0 → P k { o with volume := o.volume - v }

theorem Forall.imp {P Q : PriceType → OrderInsertData → Prop} {book : OrderBook c}
    (h : book.Forall P) (hPQ : ∀ k o, P k o → Q k o) : book.Forall Q :=
  fun e he o ho => hPQ e.1 o (h e he o ho)

theorem removeLevelAtPrice_entries (book : OrderBook c) (price : PriceType) :
    (book.removeLevelAtPrice price).orderBookMap.entries = (book.orderBookMap.erase price).entries := by
  unfold removeLevelAtPrice
  cases h : book.orderBookMap.find? price with
  | none => exact (OrderedMap.erase_entries_of_find?_none h).symm
  | some _ => rfl

namespace Front
variable {book : OrderBook c} (f : Front book)

instance : Subsingleton (Front book) where
  allEq f g := by
    obtain ⟨key,best,queue,tail,hf⟩ := f
    obtain ⟨key',best',queue',tail',hg⟩ := g
    rw [hf] at hg
    cases hg
    rfl

/-- The book after the best order has traded the volume. -/
def fill (tradedVolume : VolumeType) : OrderBook c :=
  let level : OrderLevel := ⟨settle f.best tradedVolume f.queue⟩
  let book : OrderBook c := ⟨book.orderBookMap.modifyBegin (fun _ => level)⟩
  if level.isEmpty then book.removeLevelAtPrice f.best.price else book

theorem orders_eq : book.orders =
    f.best :: f.queue ++ f.tail.flatMap (fun e => e.2.timeQueue) := by
  rw [orders,f.entries_eq,List.flatMap_cons]

theorem best_mem : f.best ∈ book.orders := by simp [f.orders_eq]

theorem forall_best {P : PriceType → OrderInsertData → Prop} (h : book.Forall P) :
    P f.key f.best :=
  h (f.key,⟨f.best :: f.queue⟩) (f.entries_eq ▸ List.mem_cons_self) f.best List.mem_cons_self

theorem modifyBegin_entries (level : OrderLevel) :
    (book.orderBookMap.modifyBegin (fun _ => level)).entries = (f.key,level) :: f.tail := by
  simp [OrderedMap.modifyBegin,f.entries_eq]

theorem fill_entries_of_ne_nil {v : VolumeType} (h : settle f.best v f.queue ≠ []) :
    (f.fill v).orderBookMap.entries = (f.key,⟨settle f.best v f.queue⟩) :: f.tail := by
  have he : (⟨settle f.best v f.queue⟩ : OrderLevel).isEmpty = false :=
    List.isEmpty_eq_false_iff.mpr h
  simp only [fill,he,Bool.false_eq_true,↓reduceIte]
  exact f.modifyBegin_entries _

theorem fill_entries_of_eq_nil {v : VolumeType} (h : settle f.best v f.queue = []) :
    (f.fill v).orderBookMap.entries =
      ((f.key,⟨[]⟩) :: f.tail).filter (fun e => decide (e.1 ≠ f.best.price)) := by
  simp only [fill,h,OrderLevel.isEmpty,List.isEmpty_nil,↓reduceIte,removeLevelAtPrice_entries,
    OrderedMap.erase]
  rw [f.modifyBegin_entries]

/-- The level of an order that sits at its own price is removed with it. -/
theorem fill_entries_of_keyed (hkey : f.best.price = f.key) {v : VolumeType}
    (h : settle f.best v f.queue = []) : (f.fill v).orderBookMap.entries = f.tail := by
  rw [f.fill_entries_of_eq_nil h,hkey]
  have hs : (⟨⟨(f.key,⟨[]⟩) :: f.tail,f.modifyBegin_entries ⟨[]⟩ ▸
      (book.orderBookMap.modifyBegin (fun _ => ⟨[]⟩)).sorted⟩⟩ : OrderBook c).orderBookMap.Split
        f.key ⟨[]⟩ [] f.tail := OrderedMap.Split.of_cons rfl
  exact hs.erase_entries

theorem fill_orders (hkey : f.best.price = f.key) (v : VolumeType) :
    (f.fill v).orders = settle f.best v f.queue ++ f.tail.flatMap (fun e => e.2.timeQueue) := by
  by_cases h : settle f.best v f.queue = []
  · rw [orders,f.fill_entries_of_keyed hkey h,h,List.nil_append]
  · rw [orders,f.fill_entries_of_ne_nil h,List.flatMap_cons]

/-- With no assumption on the keys a fill may remove another level, and no more. -/
theorem fill_orders_sublist (v : VolumeType) : (f.fill v).orders.Sublist
    (settle f.best v f.queue ++ f.tail.flatMap (fun e => e.2.timeQueue)) := by
  by_cases h : settle f.best v f.queue = []
  · rw [orders,f.fill_entries_of_eq_nil h,h]
    have hs := (List.filter_sublist (p := fun e => decide (e.1 ≠ f.best.price))
      (l := (f.key,(⟨[]⟩ : OrderLevel)) :: f.tail)).flatMap (fun e => e.2.timeQueue)
    simpa using hs
  · rw [orders,f.fill_entries_of_ne_nil h,List.flatMap_cons]

/-- A fill lets a level through only if it was there, or is the traded level. -/
theorem mem_fill_entries {v : VolumeType} {e : PriceType × OrderLevel}
    (h : e ∈ (f.fill v).orderBookMap.entries) :
    e = (f.key,⟨settle f.best v f.queue⟩) ∨ e ∈ f.tail := by
  by_cases hs : settle f.best v f.queue = []
  · rw [f.fill_entries_of_eq_nil hs] at h
    rw [hs]
    exact List.mem_cons.mp (List.mem_filter.mp h).1
  · rw [f.fill_entries_of_ne_nil hs] at h
    exact List.mem_cons.mp h

theorem fill_forall {P : PriceType → OrderInsertData → Prop} (hP : FillStable P)
    (h : book.Forall P) (v : VolumeType) : (f.fill v).Forall P := by
  unfold OrderBook.Forall at h
  rw [f.entries_eq] at h
  intro e he o ho
  rcases f.mem_fill_entries he with rfl | he
  · have hf := h _ List.mem_cons_self
    rcases mem_settle ho with ⟨hne,rfl⟩ | ho
    · exact hP _ _ _ (hf _ List.mem_cons_self) hne
    · exact hf o (List.mem_cons_of_mem _ ho)
  · exact h e (List.mem_cons_of_mem _ he) o ho

end Front
end OrderBook

end Moboware
