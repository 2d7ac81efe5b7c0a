import Moboware.MatchingEngine.BestLevel

/-! # What the book operations do

`Cancel` and `Amend` act on the first order with the requested id in the level at
the requested price. That position is made explicit, each operation is computed
from it once, and the effect on the orders of the book is read off it.
-/
namespace Moboware
open Library OrderLevel
variable {c : TCompare}

namespace OrderBook

/-- An order with the id rests in the level at the price. -/
def Rests (book : OrderBook c) (price : PriceType) (id : Id) : Prop :=
  ∃ level, book.orderBookMap.find? price = some level ∧ ∃ o ∈ level.timeQueue, o.id = id

/-- The first order with the id in the level at the price, and its surroundings. -/
structure Position (book : OrderBook c) (price : PriceType) (id : Id) where
  pre : List (PriceType × OrderLevel)
  before : List OrderInsertData
  order : OrderInsertData
  after : List OrderInsertData
  post : List (PriceType × OrderLevel)
  split : book.orderBookMap.Split price ⟨before ++ order :: after⟩ pre post
  id_eq : order.id = id
  first : ∀ o ∈ before, o.id ≠ id

theorem nonempty_position_iff {book : OrderBook c} {price : PriceType} {id : Id} :
    Nonempty (Position book price id) ↔ book.Rests price id := by
  constructor
  · rintro ⟨p⟩
    exact ⟨_,p.split.find?,p.order,by simp,p.id_eq⟩
  · rintro ⟨⟨timeQueue⟩,hf,hr⟩
    obtain ⟨pre,post,hs⟩ := OrderedMap.split_of_find? hf
    have hm : ∃ o ∈ timeQueue, (o.id == id) = true := by simpa using hr
    obtain ⟨⟨before,o,after⟩,hr⟩ := exists_firstMatch_iff.mpr hm
    obtain ⟨rfl,hid,hfirst⟩ := firstMatch_spec hr
    exact ⟨⟨pre,before,o,after,post,hs,by simpa using hid,fun q hq => by simpa using hfirst q hq⟩⟩

namespace Position
variable {book : OrderBook c} {price : PriceType} {id : Id} (p : Position book price id)

/-- The book with another queue in the level of the position. -/
def withQueue (_p : Position book price id) (timeQueue : List OrderInsertData) : OrderBook c :=
  ⟨book.orderBookMap.modify price (fun _ => ⟨timeQueue⟩)⟩

/-- The book without the order, and without its level when that is now empty. -/
def dropped : OrderBook c :=
  if (p.before ++ p.after).isEmpty then ⟨book.orderBookMap.erase price⟩
  else p.withQueue (p.before ++ p.after)

def repriced (newPrice : PriceType) (newVolume : VolumeType) : OrderInsertData :=
  { p.order with price := newPrice, volume := newVolume }

/-- The book after a move to another price. -/
def moved (newPrice : PriceType) (newVolume : VolumeType) : OrderBook c :=
  let orderBookMap := (book.orderBookMap.emplace newPrice
    (OrderLevel.ofOrder (p.repriced newPrice newVolume))).1.modify price
      (fun _ => ⟨p.before ++ p.after⟩)
  ⟨if (p.before ++ p.after).isEmpty then orderBookMap.erase price else orderBookMap⟩

/-- The book after an amend that finds the order. -/
def amended (newPrice : PriceType) (newVolume : VolumeType) : OrderBook c :=
  if newVolume = 0 then p.dropped
  else if price = newPrice then
    p.withQueue (p.before ++ { p.order with volume := newVolume } :: p.after)
  else p.moved newPrice newVolume

theorem firstMatch_eq : firstMatch (fun o => o.id == id) (p.before ++ p.order :: p.after) =
    some (p.before,p.order,p.after) :=
  firstMatch_append (fun o ho => beq_eq_false_iff_ne.mpr (p.first o ho)) (beq_iff_eq.mpr p.id_eq)

theorem firstMatch_eq' : firstMatch (fun o => id == o.id) (p.before ++ p.order :: p.after) =
    some (p.before,p.order,p.after) :=
  firstMatch_append (fun o ho => beq_eq_false_iff_ne.mpr (p.first o ho).symm)
    (beq_iff_eq.mpr p.id_eq.symm)

theorem withQueue_split (timeQueue : List OrderInsertData) :
    (p.withQueue timeQueue).orderBookMap.Split price ⟨timeQueue⟩ p.pre p.post :=
  p.split.modify (fun _ => ⟨timeQueue⟩)

theorem removeLevel_withQueue (timeQueue : List OrderInsertData) :
    (p.withQueue timeQueue).removeLevelAtPrice price = ⟨book.orderBookMap.erase price⟩ := by
  refine OrderBook.ext (OrderedMap.ext ?_)
  rw [removeLevelAtPrice_entries,(p.withQueue_split timeQueue).erase_entries,p.split.erase_entries]

end Position

theorem firstMatch_eq_none_of_not_rests {book : OrderBook c} {price : PriceType} {id : Id}
    {level : OrderLevel} (hl : book.orderBookMap.find? price = some level)
    (h : ¬ book.Rests price id) : firstMatch (fun o => o.id == id) level.timeQueue = none ∧
      firstMatch (fun o => id == o.id) level.timeQueue = none := by
  have hne : ∀ o ∈ level.timeQueue, o.id ≠ id := fun o ho he => h ⟨level,hl,o,ho,he⟩
  constructor
  · exact firstMatch_eq_none_iff.mpr (fun o ho => beq_eq_false_iff_ne.mpr (hne o ho))
  · exact firstMatch_eq_none_iff.mpr (fun o ho => beq_eq_false_iff_ne.mpr (hne o ho).symm)

theorem cancel_of_position {book : OrderBook c} {orderCancel : OrderCancelData}
    (p : Position book orderCancel.price orderCancel.id) :
    book.cancel orderCancel = (p.withQueue (p.before ++ p.after),true) := by
  simp only [cancel,p.split.find?,cancelOrder,p.firstMatch_eq]
  rfl

theorem cancel_of_not_rests {book : OrderBook c} {orderCancel : OrderCancelData}
    (h : ¬ book.Rests orderCancel.price orderCancel.id) :
    book.cancel orderCancel = (book,false) := by
  unfold cancel
  cases hl : book.orderBookMap.find? orderCancel.price with
  | none => rfl
  | some level => simp only [cancelOrder,(firstMatch_eq_none_of_not_rests hl h).1]

theorem amend_of_position {book : OrderBook c} {orderAmend : OrderAmendData}
    (p : Position book orderAmend.price orderAmend.id) :
    book.amend orderAmend = (p.amended orderAmend.newPrice orderAmend.newVolume,true) := by
  simp only [amend,p.split.find?]
  unfold Position.amended
  split_ifs with hv hp
  · simp only [cancelOrder,p.firstMatch_eq]
    have hr := p.removeLevel_withQueue (p.before ++ p.after)
    unfold Position.withQueue at hr
    simp only [OrderLevel.isEmpty,hr,Position.dropped]
    rfl
  · simp only [changeOrderVolume,OrderLevel.find,p.firstMatch_eq']
    rfl
  · simp only [moveOrder,p.firstMatch_eq']
    rfl

theorem amend_of_not_rests {book : OrderBook c} {orderAmend : OrderAmendData}
    (h : ¬ book.Rests orderAmend.price orderAmend.id) :
    book.amend orderAmend = (book,false) := by
  unfold amend
  cases hl : book.orderBookMap.find? orderAmend.price with
  | none => rfl
  | some level =>
    obtain ⟨h1,h2⟩ := firstMatch_eq_none_of_not_rests hl h
    simp only [cancelOrder,changeOrderVolume,OrderLevel.find,moveOrder,h1,h2,ite_self]

theorem insert_of_split {book : OrderBook c} {o : OrderInsertData} {level : OrderLevel}
    {pre post : List (PriceType × OrderLevel)} (h : book.orderBookMap.Split o.price level pre post) :
    book.insert o = (⟨book.orderBookMap.modify o.price (fun _ => ⟨level.timeQueue ++ [o]⟩)⟩,some o) := by
  simp only [insert,h.find?,insert_fst,insert_snd]

theorem insert_of_absent {book : OrderBook c} {o : OrderInsertData}
    (h : book.orderBookMap.find? o.price = none) :
    book.insert o = (⟨(book.orderBookMap.emplace o.price ⟨[o]⟩).1⟩,some o) := by
  obtain ⟨hnew,pre,post,_,hs⟩ := OrderedMap.emplace_of_find?_none h (⟨[o]⟩ : OrderLevel)
  simp only [insert,h,ofOrder_eq,hnew,↓reduceIte,hs.find?]
  rfl

/-- `Insert` never returns a null pointer. -/
@[simp] theorem insert_snd (book : OrderBook c) (o : OrderInsertData) :
    (book.insert o).2 = some o := by
  cases h : book.orderBookMap.find? o.price with
  | none => rw [insert_of_absent h]
  | some level =>
    obtain ⟨pre,post,hs⟩ := OrderedMap.split_of_find? h
    rw [insert_of_split hs]

/-- The level of an inserted order: the order at the end of the queue. -/
theorem insert_split (book : OrderBook c) (o : OrderInsertData) :
    ∃ timeQueue pre post, (book.insert o).1.orderBookMap.Split o.price ⟨timeQueue ++ [o]⟩ pre post ∧
      ((book.orderBookMap.Split o.price ⟨timeQueue⟩ pre post) ∨
        (timeQueue = [] ∧ book.orderBookMap.entries = pre ++ post)) := by
  cases h : book.orderBookMap.find? o.price with
  | none =>
    obtain ⟨_,pre,post,he,hs⟩ := OrderedMap.emplace_of_find?_none h (⟨[o]⟩ : OrderLevel)
    rw [insert_of_absent h]
    exact ⟨[],pre,post,hs,Or.inr ⟨rfl,he⟩⟩
  | some level =>
    obtain ⟨pre,post,hs⟩ := OrderedMap.split_of_find? h
    rw [insert_of_split hs]
    exact ⟨level.timeQueue,pre,post,hs.modify (fun _ => ⟨level.timeQueue ++ [o]⟩),
      Or.inl hs⟩

/-! ### Orders, levels and properties after an operation -/

theorem orders_of_split {book : OrderBook c} {price : PriceType} {level : OrderLevel}
    {pre post : List (PriceType × OrderLevel)} (h : book.orderBookMap.Split price level pre post) :
    book.orders = pre.flatMap (fun e => e.2.timeQueue) ++ level.timeQueue ++
      post.flatMap (fun e => e.2.timeQueue) := by
  rw [orders,h.entries,List.flatMap_append,List.flatMap_cons,List.append_assoc]

/-- An insert puts the order somewhere into the traversal and moves nothing else. -/
theorem insert_orders (book : OrderBook c) (o : OrderInsertData) :
    ∃ front back, book.orders = front ++ back ∧ (book.insert o).1.orders = front ++ o :: back := by
  obtain ⟨timeQueue,pre,post,hs,hold⟩ := book.insert_split o
  refine ⟨pre.flatMap (fun e => e.2.timeQueue) ++ timeQueue,
    post.flatMap (fun e => e.2.timeQueue),?_,?_⟩
  · rcases hold with hold | ⟨rfl,hold⟩
    · rw [orders_of_split hold]
    · rw [orders,hold,List.flatMap_append,List.append_nil]
  · rw [orders_of_split hs]
    simp

theorem insert_forall {P : PriceType → OrderInsertData → Prop} {book : OrderBook c}
    {o : OrderInsertData} (h : book.Forall P) (ho : P o.price o) : (book.insert o).1.Forall P := by
  obtain ⟨timeQueue,pre,post,hs,hold⟩ := book.insert_split o
  intro e he q hq
  rw [hs.entries,List.mem_append,List.mem_cons] at he
  rcases hold with hold | ⟨rfl,hold⟩
  · rcases he with he | rfl | he
    · exact h e (hold.entries ▸ by simp [he]) q hq
    · rcases List.mem_append.mp hq with hq | hq
      · exact h (o.price,⟨timeQueue⟩) (hold.entries ▸ by simp) q hq
      · rw [List.mem_singleton.mp hq]
        exact ho
    · exact h e (hold.entries ▸ by simp [he]) q hq
  · rcases he with he | rfl | he
    · exact h e (hold ▸ by simp [he]) q hq
    · rw [List.nil_append,List.mem_singleton] at hq
      rw [hq]
      exact ho
    · exact h e (hold ▸ by simp [he]) q hq

/-- No price level is empty. -/
def NoEmptyLevel (book : OrderBook c) : Prop :=
  ∀ e ∈ book.orderBookMap.entries, e.2.timeQueue ≠ []

instance (book : OrderBook c) : Decidable book.NoEmptyLevel :=
  inferInstanceAs (Decidable (∀ e ∈ book.orderBookMap.entries, e.2.timeQueue ≠ []))

theorem insert_noEmptyLevel {book : OrderBook c} (h : book.NoEmptyLevel) (o : OrderInsertData) :
    (book.insert o).1.NoEmptyLevel := by
  obtain ⟨timeQueue,pre,post,hs,hold⟩ := book.insert_split o
  have hrest : ∀ e ∈ pre ++ post, e ∈ book.orderBookMap.entries := by
    intro e he
    rcases hold with hold | ⟨rfl,hold⟩
    · rw [hold.entries]
      rcases List.mem_append.mp he with he | he <;> simp [he]
    · exact hold ▸ he
  intro e he
  rw [hs.entries,List.mem_append,List.mem_cons] at he
  rcases he with he | rfl | he
  · exact h e (hrest e (List.mem_append_left post he))
  · simp
  · exact h e (hrest e (List.mem_append_right pre he))

namespace Position
variable {book : OrderBook c} {price : PriceType} {id : Id} (p : Position book price id)

/-- The orders with a better place than the order of the position. -/
def frontOrders : List OrderInsertData := p.pre.flatMap (fun e => e.2.timeQueue) ++ p.before

def backOrders : List OrderInsertData := p.after ++ p.post.flatMap (fun e => e.2.timeQueue)

theorem orders_eq : book.orders = p.frontOrders ++ p.order :: p.backOrders := by
  rw [orders_of_split p.split]
  simp [frontOrders,backOrders]

theorem forall_order {P : PriceType → OrderInsertData → Prop} (h : book.Forall P) :
    P price p.order :=
  h (price,⟨p.before ++ p.order :: p.after⟩) (by simp [p.split.entries]) p.order (by simp)

theorem withQueue_orders (timeQueue : List OrderInsertData) : (p.withQueue timeQueue).orders =
    p.pre.flatMap (fun e => e.2.timeQueue) ++ timeQueue ++
      p.post.flatMap (fun e => e.2.timeQueue) := orders_of_split (p.withQueue_split timeQueue)

theorem withQueue_forall {P : PriceType → OrderInsertData → Prop} {timeQueue : List OrderInsertData}
    (h : book.Forall P) (hq : ∀ o ∈ timeQueue, P price o) : (p.withQueue timeQueue).Forall P := by
  intro e he o ho
  rw [(p.withQueue_split timeQueue).entries,List.mem_append,List.mem_cons] at he
  rcases he with he | rfl | he
  · exact h e (by simp [p.split.entries,he]) o ho
  · exact hq o ho
  · exact h e (by simp [p.split.entries,he]) o ho

theorem withQueue_noEmptyLevel {timeQueue : List OrderInsertData} (h : book.NoEmptyLevel)
    (hq : timeQueue ≠ []) : (p.withQueue timeQueue).NoEmptyLevel := by
  intro e he
  rw [(p.withQueue_split timeQueue).entries,List.mem_append,List.mem_cons] at he
  rcases he with he | rfl | he
  · exact h e (by simp [p.split.entries,he])
  · exact hq
  · exact h e (by simp [p.split.entries,he])

theorem forall_queue {P : PriceType → OrderInsertData → Prop} (h : book.Forall P) :
    ∀ o ∈ p.before ++ p.after, P price o := by
  intro o ho
  refine h (price,⟨p.before ++ p.order :: p.after⟩) (by simp [p.split.entries]) o ?_
  rcases List.mem_append.mp ho with ho | ho <;> simp [ho]

/-- The queue without its order, whether its level stays or not. -/
theorem removed_orders :
    (p.withQueue (p.before ++ p.after)).orders = p.frontOrders ++ p.backOrders := by
  rw [withQueue_orders]
  simp [frontOrders,backOrders]

theorem dropped_orders : p.dropped.orders = p.frontOrders ++ p.backOrders := by
  unfold dropped
  split_ifs with hempty
  · have hnil : p.before ++ p.after = [] := List.isEmpty_iff.mp hempty
    obtain ⟨hb,ha⟩ := List.append_eq_nil_iff.mp hnil
    rw [orders,p.split.erase_entries,List.flatMap_append,frontOrders,backOrders,hb,ha,
      List.append_nil,List.nil_append]
  · exact p.removed_orders

theorem withQueue_eq_dropped (h : p.before ++ p.after ≠ []) :
    p.withQueue (p.before ++ p.after) = p.dropped := by
  rw [dropped,if_neg (fun he => h (List.isEmpty_iff.mp he))]

theorem mem_of_mem_dropped {o : OrderInsertData} (ho : o ∈ p.dropped.orders) : o ∈ book.orders := by
  rw [p.dropped_orders] at ho
  rw [p.orders_eq]
  rcases List.mem_append.mp ho with ho | ho <;> simp [ho]

theorem dropped_forall {P : PriceType → OrderInsertData → Prop} (h : book.Forall P) :
    p.dropped.Forall P := by
  unfold dropped
  split_ifs
  · exact fun e he => h e (OrderedMap.mem_erase.mp he).1
  · exact p.withQueue_forall h (p.forall_queue h)

theorem dropped_noEmptyLevel (h : book.NoEmptyLevel) : p.dropped.NoEmptyLevel := by
  unfold dropped
  split_ifs with hempty
  · exact fun e he => h e (OrderedMap.mem_erase.mp he).1
  · exact p.withQueue_noEmptyLevel h (fun hnil => hempty (List.isEmpty_iff.mpr hnil))

theorem dropped_find? (j : PriceType) : p.dropped.orderBookMap.find? j =
    if j = price then (if (p.before ++ p.after).isEmpty then none else some ⟨p.before ++ p.after⟩)
    else book.orderBookMap.find? j := by
  unfold dropped
  split_ifs with he hj hj
  · rw [OrderedMap.find?_erase,if_pos hj]
  · rw [OrderedMap.find?_erase,if_neg hj]
  · rw [withQueue,OrderedMap.find?_modify,if_pos hj,hj,p.split.find?,Option.map_some]
  · rw [withQueue,OrderedMap.find?_modify,if_neg hj]

/-- A move to a price that has a level removes the order and inserts nothing:
the `emplace` of the move function fails and its flag is not looked at. -/
theorem moved_of_present {newPrice : PriceType} {level : OrderLevel}
    (h : book.orderBookMap.find? newPrice = some level) (newVolume : VolumeType) :
    p.moved newPrice newVolume = p.dropped := by
  obtain ⟨pre,post,hs⟩ := OrderedMap.split_of_find? h
  unfold moved dropped
  rw [hs.emplace]
  split_ifs with hempty
  · refine OrderBook.ext (OrderedMap.ext ?_)
    exact (p.withQueue_split (p.before ++ p.after)).erase_entries.trans p.split.erase_entries.symm
  · rfl

/-- A move to a price without a level is a removal and an insert. -/
theorem moved_of_absent {newPrice : PriceType} (hne : price ≠ newPrice)
    (h : book.orderBookMap.find? newPrice = none) (newVolume : VolumeType) :
    p.moved newPrice newVolume = (p.dropped.insert (p.repriced newPrice newVolume)).1 := by
  have habs : p.dropped.orderBookMap.find? newPrice = none := by
    rw [dropped_find?,if_neg hne.symm,h]
  rw [insert_of_absent (o := p.repriced newPrice newVolume) habs]
  refine OrderBook.ext (OrderedMap.ext_find? ?_)
  intro j
  change _ = (p.dropped.orderBookMap.emplace newPrice ⟨[p.repriced newPrice newVolume]⟩).1.find? j
  rw [OrderedMap.find?_emplace,habs,Option.getD_none,dropped_find?]
  by_cases hempty : (p.before ++ p.after).isEmpty
  · simp only [moved,hempty,↓reduceIte,OrderedMap.find?_erase,OrderedMap.find?_modify,
      OrderedMap.find?_emplace,h,Option.getD_none,ofOrder_eq]
    by_cases hj : j = price
    · rw [if_pos hj,if_pos hj,if_neg (hj ▸ hne)]
    · rw [if_neg hj,if_neg hj,if_neg hj]
  · simp only [moved,hempty,Bool.false_eq_true,↓reduceIte,OrderedMap.find?_modify,
      OrderedMap.find?_emplace,h,Option.getD_none,ofOrder_eq]
    by_cases hj : j = price
    · rw [if_pos hj,if_pos hj,if_neg (hj ▸ hne),if_neg (hj ▸ hne),hj,p.split.find?,Option.map_some]
    · rw [if_neg hj,if_neg hj]

theorem moved_forall {P : PriceType → OrderInsertData → Prop} {newPrice : PriceType}
    {newVolume : VolumeType} (hne : price ≠ newPrice) (h : book.Forall P)
    (ho : P newPrice (p.repriced newPrice newVolume)) : (p.moved newPrice newVolume).Forall P := by
  cases hf : book.orderBookMap.find? newPrice with
  | some level =>
    rw [p.moved_of_present hf]
    exact p.dropped_forall h
  | none =>
    rw [p.moved_of_absent hne hf]
    exact insert_forall (p.dropped_forall h) ho

theorem amended_forall {P : PriceType → OrderInsertData → Prop} {newPrice : PriceType}
    {newVolume : VolumeType} (h : book.Forall P)
    (hvolume : newVolume ≠ 0 → P price { p.order with volume := newVolume })
    (hmove : newVolume ≠ 0 → P newPrice (p.repriced newPrice newVolume)) :
    (p.amended newPrice newVolume).Forall P := by
  unfold amended
  split_ifs with hv hp
  · exact p.dropped_forall h
  · refine p.withQueue_forall h ?_
    intro o ho
    rcases List.mem_append.mp ho with ho | ho
    · exact p.forall_queue h o (List.mem_append_left p.after ho)
    · rcases List.mem_cons.mp ho with rfl | ho
      · exact hvolume hv
      · exact p.forall_queue h o (List.mem_append_right p.before ho)
  · exact p.moved_forall hp h (hmove hv)

theorem amended_noEmptyLevel {newPrice : PriceType} (h : book.NoEmptyLevel)
    (newVolume : VolumeType) : (p.amended newPrice newVolume).NoEmptyLevel := by
  unfold amended
  split_ifs with hv hp
  · exact p.dropped_noEmptyLevel h
  · exact p.withQueue_noEmptyLevel h (by simp)
  · cases hf : book.orderBookMap.find? newPrice with
    | some level =>
      rw [p.moved_of_present hf]
      exact p.dropped_noEmptyLevel h
    | none =>
      rw [p.moved_of_absent hp hf]
      exact insert_noEmptyLevel (p.dropped_noEmptyLevel h) _

end Position
end OrderBook
end Moboware
