import Moboware.MatchingEngine.BookOperations

/-! # Editing a book

What `Cancel` and `Amend` do to the rest of the book: the frame of the edits that
keep an order in its level, the agreement of a cancel with an amend to volume zero,
and the agreement of a move with a removal followed by an insert. The last two fail
in one case each, and these are characterized.
-/
namespace Moboware
open Library OrderLevel
variable {c : TCompare}

namespace OrderBook

/-- The first order with the id in the level at the price is replaced by other
orders, and nothing else of the book changes. -/
def ReplacesFirst (book edited : OrderBook c) (price : PriceType) (id : Id)
    (new : OrderInsertData → List OrderInsertData) : Prop :=
  ∃ pre before o after post,
    book.orderBookMap.entries = pre ++ (price,⟨before ++ o :: after⟩) :: post ∧
    edited.orderBookMap.entries = pre ++ (price,⟨before ++ new o ++ after⟩) :: post ∧
    o.id = id ∧ ∀ q ∈ before, q.id ≠ id

theorem Position.replacesFirst {book : OrderBook c} {price : PriceType} {id : Id}
    (p : Position book price id) (new : OrderInsertData → List OrderInsertData) :
    book.ReplacesFirst (p.withQueue (p.before ++ new p.order ++ p.after)) price id new :=
  ⟨p.pre,p.before,p.order,p.after,p.post,p.split.entries,(p.withQueue_split _).entries,
    p.id_eq,p.first⟩

theorem rests_of_cancel {book : OrderBook c} {orderCancel : OrderCancelData}
    (h : (book.cancel orderCancel).2 = true) : book.Rests orderCancel.price orderCancel.id := by
  by_contra hr
  rw [cancel_of_not_rests hr] at h
  exact Bool.false_ne_true h

theorem rests_of_amend {book : OrderBook c} {orderAmend : OrderAmendData}
    (h : (book.amend orderAmend).2 = true) : book.Rests orderAmend.price orderAmend.id := by
  by_contra hr
  rw [amend_of_not_rests hr] at h
  exact Bool.false_ne_true h

/-- The frame of the edits in place: a cancel that succeeds takes the first order
with the id out of its level, an amend of the volume that succeeds changes the volume
of that order, and all other orders and levels stay as and where they were. -/
theorem edits_in_place (book : OrderBook c) :
    (∀ orderCancel, (book.cancel orderCancel).2 = true →
      book.ReplacesFirst (book.cancel orderCancel).1 orderCancel.price orderCancel.id
        (fun _ => [])) ∧
    ∀ orderAmend, (book.amend orderAmend).2 = true → orderAmend.price = orderAmend.newPrice →
      orderAmend.newVolume ≠ 0 →
      book.ReplacesFirst (book.amend orderAmend).1 orderAmend.price orderAmend.id
        (fun o => [{ o with volume := orderAmend.newVolume }]) := by
  constructor
  · intro orderCancel h
    obtain ⟨p⟩ := nonempty_position_iff.mpr (rests_of_cancel h)
    rw [cancel_of_position p]
    simpa only [List.append_nil] using p.replacesFirst (fun _ => [])
  · intro orderAmend h hprice hvolume
    obtain ⟨p⟩ := nonempty_position_iff.mpr (rests_of_amend h)
    rw [amend_of_position p,Position.amended,if_neg hvolume,if_pos hprice]
    simpa only [List.append_assoc,List.singleton_append] using
      p.replacesFirst (fun o => [{ o with volume := orderAmend.newVolume }])

theorem edits_in_place_second :
    let book : OrderBook .greater := (((empty.insert (limitOrder true "1" 50 10)).1.insert
      (limitOrder true "2" 50 20)).1.insert (limitOrder true "2" 50 30)).1
    book.ReplacesFirst (book.cancel ⟨"ABCD",50,true,"2",""⟩).1 50 "2" (fun _ => []) ∧
    book.ReplacesFirst (book.amend ⟨limitOrder true "2" 50 0,50,25⟩).1 50 "2"
      (fun o => [{ o with volume := 25 }]) := by
  intro book
  exact ⟨(edits_in_place book).1 ⟨"ABCD",50,true,"2",""⟩ (by decide),
    (edits_in_place book).2 ⟨limitOrder true "2" 50 0,50,25⟩ (by decide) rfl (by decide)⟩

/-! ### A cancel and an amend to volume zero -/

/-- No level of the edited book is empty that was not empty before. -/
def LeavesNoEmptyLevel (book edited : OrderBook c) : Prop :=
  ∀ price, edited.orderBookMap.find? price = some ⟨[]⟩ → book.orderBookMap.find? price = some ⟨[]⟩

/-- The order with the id is alone in the level at the price. -/
def Alone (book : OrderBook c) (price : PriceType) (id : Id) : Prop :=
  ∃ o, book.orderBookMap.find? price = some ⟨[o]⟩ ∧ o.id = id

theorem Position.alone_iff {book : OrderBook c} {price : PriceType} {id : Id}
    (p : Position book price id) : book.Alone price id ↔ p.before ++ p.after = [] := by
  unfold Alone
  rw [p.split.find?]
  constructor
  · rintro ⟨o,ho,_⟩
    have hlen := congrArg List.length (OrderLevel.mk.inj (Option.some.inj ho))
    rw [List.length_append,List.length_cons,List.length_singleton] at hlen
    exact List.eq_nil_of_length_eq_zero (by rw [List.length_append]; omega)
  · intro h
    obtain ⟨hb,ha⟩ := List.append_eq_nil_iff.mp h
    exact ⟨p.order,by rw [hb,ha]; rfl,p.id_eq⟩

theorem Position.dropped_leavesNoEmptyLevel {book : OrderBook c} {price : PriceType} {id : Id}
    (p : Position book price id) : book.LeavesNoEmptyLevel p.dropped := by
  intro j hj
  rw [p.dropped_find?] at hj
  split_ifs at hj with hp he
  · have hnil := OrderLevel.mk.inj (Option.some.inj hj)
    rw [hnil] at he
    exact absurd rfl he
  · exact hj

/-- A cancel that takes the only order of a level keeps the level. -/
theorem Position.withQueue_eq_dropped_iff {book : OrderBook c} {price : PriceType} {id : Id}
    (p : Position book price id) :
    p.withQueue (p.before ++ p.after) = p.dropped ↔ ¬ book.Alone price id := by
  rw [p.alone_iff]
  constructor
  · intro h hnil
    have hf : (p.withQueue (p.before ++ p.after)).orderBookMap.find? price =
        p.dropped.orderBookMap.find? price := by rw [h]
    rw [(p.withQueue_split _).find?,p.dropped_find?,if_pos rfl,hnil] at hf
    exact Option.some_ne_none _ hf
  · exact p.withQueue_eq_dropped

/-- A cancel and an amend to volume zero return the same and leave the same map, without
a level that became empty, unless the order is alone in its level: the amend then
removes the level, the cancel does not. -/
theorem cancel_eq_amend_zero_iff (book : OrderBook c) (orderCancel : OrderCancelData)
    (orderAmend : OrderAmendData) (hprice : orderAmend.price = orderCancel.price)
    (hid : orderAmend.id = orderCancel.id) (hvolume : orderAmend.newVolume = 0) :
    (book.cancel orderCancel = book.amend orderAmend ∧
      book.LeavesNoEmptyLevel (book.cancel orderCancel).1 ∧
      book.LeavesNoEmptyLevel (book.amend orderAmend).1) ↔
    ¬ book.Alone orderCancel.price orderCancel.id := by
  obtain ⟨instrument,price,isBuySide,id,clientId⟩ := orderCancel
  dsimp only at hprice hid ⊢
  subst hprice hid
  by_cases h : book.Rests orderAmend.price orderAmend.id
  · obtain ⟨p⟩ := nonempty_position_iff.mpr h
    rw [amend_of_position p,cancel_of_position p,← p.withQueue_eq_dropped_iff,Position.amended,
      if_pos hvolume]
    constructor
    · exact fun hall => congrArg Prod.fst hall.1
    · intro he
      rw [he]
      exact ⟨rfl,p.dropped_leavesNoEmptyLevel,p.dropped_leavesNoEmptyLevel⟩
  · rw [cancel_of_not_rests h,amend_of_not_rests h]
    refine iff_of_true ⟨rfl,fun _ hj => hj,fun _ hj => hj⟩ ?_
    rintro ⟨o,hf,hid⟩
    exact h ⟨⟨[o]⟩,hf,o,List.mem_singleton_self o,hid⟩

theorem cancel_eq_amend_zero_iff_one_of_two :
    let book : OrderBook .greater := ((empty.insert (limitOrder true "1" 50 10)).1.insert
      (limitOrder true "2" 50 20)).1
    (book.cancel ⟨"ABCD",50,true,"1",""⟩ = book.amend ⟨limitOrder true "1" 50 0,50,0⟩ ∧
      book.LeavesNoEmptyLevel (book.cancel ⟨"ABCD",50,true,"1",""⟩).1 ∧
      book.LeavesNoEmptyLevel (book.amend ⟨limitOrder true "1" 50 0,50,0⟩).1) ↔
    ¬ book.Alone 50 "1" := by
  intro book
  exact cancel_eq_amend_zero_iff book ⟨"ABCD",50,true,"1",""⟩ ⟨limitOrder true "1" 50 0,50,0⟩ rfl
    rfl rfl

/-- The only order of a level: the cancel leaves the level behind. -/
theorem cancel_only_order_leaves_level :
    let book : OrderBook .greater := (empty.insert (limitOrder true "1" 50 10)).1
    (book.cancel ⟨"ABCD",50,true,"1",""⟩).1.orderBookMap.entries = [(50,⟨[]⟩)] ∧
    (book.amend ⟨limitOrder true "1" 50 0,50,0⟩).1.orderBookMap.entries = [] ∧
    ¬ book.LeavesNoEmptyLevel (book.cancel ⟨"ABCD",50,true,"1",""⟩).1 := by
  intro book
  refine ⟨by decide,by decide,?_⟩
  intro h
  exact absurd (h 50 (by decide)) (by decide)

/-! ### A move, and a removal with an insert -/

theorem insert_find? (book : OrderBook c) (o : OrderInsertData) (j : PriceType) :
    (book.insert o).1.orderBookMap.find? j = if j = o.price then
      some ⟨(book.orderBookMap.find? o.price).elim [] OrderLevel.timeQueue ++ [o]⟩
    else book.orderBookMap.find? j := by
  cases h : book.orderBookMap.find? o.price with
  | none =>
    rw [insert_of_absent h,OrderedMap.find?_emplace,h]
    rfl
  | some level =>
    obtain ⟨pre,post,hs⟩ := OrderedMap.split_of_find? h
    rw [insert_of_split hs,OrderedMap.find?_modify]
    split_ifs with hj
    · rw [hj,h]
      rfl
    · rfl

/-- An amend that acts as the removal of the order followed by the insert of the same order
with the new price and volume: it is last at the new price, and everything else is as
the removal left it. -/
structure MovesAsInsert (book : OrderBook c) (orderAmend : OrderAmendData)
    (p : Position book orderAmend.price orderAmend.id) : Prop where
  amend_eq : book.amend orderAmend =
    ((p.dropped.insert (p.repriced orderAmend.newPrice orderAmend.newVolume)).1,true)
  last : (book.amend orderAmend).1.orderBookMap.find? orderAmend.newPrice =
    some ⟨(book.orderBookMap.find? orderAmend.newPrice).elim [] OrderLevel.timeQueue ++
      [p.repriced orderAmend.newPrice orderAmend.newVolume]⟩
  others : ∀ price ≠ orderAmend.newPrice, (book.amend orderAmend).1.orderBookMap.find? price =
    p.dropped.orderBookMap.find? price

/-- A move acts as a removal and an insert exactly when no level exists at the new price;
otherwise the order is removed and inserted nowhere. -/
theorem movesAsInsert_iff (book : OrderBook c) (orderAmend : OrderAmendData)
    (p : Position book orderAmend.price orderAmend.id)
    (hprice : orderAmend.price ≠ orderAmend.newPrice) (hvolume : orderAmend.newVolume ≠ 0) :
    book.MovesAsInsert orderAmend p ↔ book.orderBookMap.find? orderAmend.newPrice = none := by
  have hamend : book.amend orderAmend = (p.moved orderAmend.newPrice orderAmend.newVolume,true) := by
    rw [amend_of_position p,Position.amended,if_neg hvolume,if_neg hprice]
  constructor
  · intro h
    by_contra hf
    obtain ⟨level,hlevel⟩ := Option.ne_none_iff_exists'.mp hf
    have heq := h.amend_eq
    rw [hamend,p.moved_of_present hlevel] at heq
    obtain ⟨front,back,hold,hnew⟩ :=
      p.dropped.insert_orders (p.repriced orderAmend.newPrice orderAmend.newVolume)
    rw [← (Prod.mk.inj heq).1,hold] at hnew
    have hlen := congrArg List.length hnew
    rw [List.length_append,List.length_append,List.length_cons] at hlen
    omega
  · intro h
    have hdropped : p.dropped.orderBookMap.find? orderAmend.newPrice = none := by
      rw [p.dropped_find?,if_neg hprice.symm,h]
    have heq := hamend
    rw [p.moved_of_absent hprice h] at heq
    refine ⟨heq,?_,?_⟩
    · rw [heq,insert_find?]
      change (if orderAmend.newPrice = orderAmend.newPrice then some (⟨(p.dropped.orderBookMap.find?
        orderAmend.newPrice).elim [] OrderLevel.timeQueue ++ _⟩ : OrderLevel) else _) = _
      rw [if_pos rfl,hdropped,h]
    · intro price hne
      rw [heq,insert_find?]
      exact if_neg hne

theorem movesAsInsert_free_price :
    let book : OrderBook .greater := ((empty.insert (limitOrder true "1" 50 10)).1.insert
      (limitOrder true "2" 50 20)).1
    ∃ p : Position book 50 "1", book.MovesAsInsert ⟨limitOrder true "1" 50 10,40,5⟩ p := by
  intro book
  obtain ⟨p⟩ := nonempty_position_iff.mpr
    (show book.Rests 50 "1" from ⟨⟨[limitOrder true "1" 50 10,limitOrder true "2" 50 20]⟩,
      by decide,limitOrder true "1" 50 10,List.mem_cons_self,rfl⟩)
  exact ⟨p,(movesAsInsert_iff book ⟨limitOrder true "1" 50 10,40,5⟩ p (by decide)
    (by decide)).mpr (by decide)⟩

/-- A move onto an existing level: the amend succeeds and the order is gone. -/
theorem moved_onto_level_lost :
    let book : OrderBook .greater := ((empty.insert (limitOrder true "1" 50 10)).1.insert
      (limitOrder true "2" 40 20)).1
    book.amend ⟨limitOrder true "1" 50 10,40,10⟩ =
      ((empty.insert (limitOrder true "2" 40 20)).1,true) ∧
    ∀ p : Position book 50 "1", ¬ book.MovesAsInsert ⟨limitOrder true "1" 50 10,40,10⟩ p := by
  intro book
  have hamend : book.amend ⟨limitOrder true "1" 50 10,40,10⟩ =
      ((empty.insert (limitOrder true "2" 40 20)).1,true) :=
    Prod.ext (OrderBook.ext (OrderedMap.ext (by decide))) (by decide)
  refine ⟨hamend,?_⟩
  intro p h
  have hlast := h.last
  rw [hamend] at hlast
  have hlen := congrArg (Option.map (fun level => level.timeQueue.length)) hlast
  rw [Option.map_some,List.length_append,List.length_singleton] at hlen
  exact absurd hlen (by decide)

end OrderBook
end Moboware
