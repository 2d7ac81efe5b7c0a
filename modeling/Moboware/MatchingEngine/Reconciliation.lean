import Moboware.MatchingEngine.Ledger

/-! # Reconciling the ledger with the books

Every request but one keeps the ledger balanced against the two books. The other
one is the amend that moves an order to a price whose level exists: the order is
erased from its old level and inserted nowhere.
-/
namespace Moboware
open Library MatchingEngine OrderBook
variable {Endpoint : Type*}

namespace MatchingEngine

/-- All resting orders of the engine. -/
def orders (engine : MatchingEngine) : List OrderInsertData :=
  engine.bids.orders ++ engine.asks.orders

theorem orders_withSides_perm (b : Bool) (opp : OrderBook (TCompare.ofSide (!b)))
    (own : OrderBook (TCompare.ofSide b)) :
    (withSides b opp own).orders.Perm (opp.orders ++ own.orders) := by
  cases b
  · exact List.Perm.refl _
  · exact List.perm_append_comm

theorem orders_perm (engine : MatchingEngine) (b : Bool) :
    engine.orders.Perm ((engine.side (!b)).orders ++ (engine.side b).orders) := by
  have h := orders_withSides_perm b (engine.side (!b)) (engine.side b)
  rwa [withSides_side] at h

theorem mem_orders {engine : MatchingEngine} {o : OrderInsertData} :
    o ∈ engine.orders ↔ ∃ b, o ∈ (engine.side b).orders := by
  rw [orders,List.mem_append,Bool.exists_bool]
  exact or_comm

end MatchingEngine

/-- Of every live id exactly the outstanding volume rests. -/
def LedgerHolds (s : MatchingEngine × Ledger) : Prop :=
  ∀ id account, s.2 id = .live account →
    0 ≤ account.outstanding ∧
    (0 < account.outstanding → ∃ o level,
      s.1.orders.filter (fun q => decide (q.id = id)) = [o] ∧
      (s.1.side account.isBuySide).orderBookMap.find? account.price = some level ∧
      o ∈ level.timeQueue ∧ (o.volume.toNat : ℤ) = account.outstanding) ∧
    (account.outstanding = 0 → ∀ o ∈ s.1.orders, o.id ≠ id)

/-- The books are well formed and the ledger balances against them. -/
structure Reconciled (s : MatchingEngine × Ledger) : Prop where
  represented : s.1.Represented
  accounted : Accounted s.2 s.1.orders

theorem filter_id_eq_singleton {orders : List OrderInsertData}
    (h : (orders.map (fun o => o.id)).Nodup) {o : OrderInsertData} (ho : o ∈ orders) :
    orders.filter (fun q => decide (q.id = o.id)) = [o] := by
  obtain ⟨front,back,rfl⟩ := List.append_of_mem ho
  rw [List.map_append,List.map_cons,List.nodup_append,List.nodup_cons] at h
  have hfront : ∀ q ∈ front, q.id ≠ o.id :=
    fun q hq => h.2.2 q.id (List.mem_map_of_mem hq) o.id List.mem_cons_self
  have hback : ∀ q ∈ back, q.id ≠ o.id := fun q hq he => h.2.1.1 (he ▸ List.mem_map_of_mem hq)
  have hnil : ∀ l : List OrderInsertData, (∀ q ∈ l, q.id ≠ o.id) →
      l.filter (fun q => decide (q.id = o.id)) = [] :=
    fun l hl => List.filter_eq_nil_iff.mpr (fun q hq => by simpa using hl q hq)
  simp [hnil front hfront,hnil back hback]

/-- The level an order of the engine rests in. -/
theorem MatchingEngine.Represented.level_of_mem {engine : MatchingEngine} (h : engine.Represented)
    {o : OrderInsertData} (ho : o ∈ engine.orders) : ∃ level,
      (engine.side o.isBuySide).orderBookMap.find? o.price = some level ∧
      o ∈ level.timeQueue ∧ 0 < o.volume := by
  obtain ⟨b,hb⟩ := MatchingEngine.mem_orders.mp ho
  obtain ⟨e,he,hoe⟩ := OrderBook.mem_orders.mp hb
  obtain ⟨rfl,hprice,hvolume⟩ := represented_iff.mp h b e he o hoe
  exact ⟨e.2,OrderedMap.find?_eq_some_iff.mpr (hprice ▸ he),hoe,hvolume⟩

theorem Reconciled.ledgerHolds {s : MatchingEngine × Ledger} (h : Reconciled s) :
    LedgerHolds s := by
  intro id account hl
  have hbalance := h.accounted.balanced id account hl
  have hq : account.outstanding = volumeOf id s.1.orders := by
    rw [Account.outstanding]
    omega
  refine ⟨by omega,fun hpos => ?_,fun hzero o ho he => ?_⟩
  · obtain ⟨o,ho,rfl⟩ : ∃ o ∈ s.1.orders, o.id = id := by
      by_contra hno
      have h0 := volumeOf_eq_zero id (fun o ho he => hno ⟨o,ho,he⟩)
      omega
    obtain ⟨account',hl',hside,hprice⟩ := h.accounted.booked o ho
    rw [hl] at hl'
    cases hl'
    obtain ⟨level,hf,hmem,_⟩ := h.represented.level_of_mem ho
    refine ⟨o,level,filter_id_eq_singleton h.accounted.distinct ho,by rw [hside,hprice,hf],hmem,?_⟩
    rw [hq,volumeOf_of_mem h.accounted.distinct ho]
  · obtain ⟨_,_,_,hvolume⟩ := h.represented.level_of_mem ho
    have hv := volumeOf_of_mem h.accounted.distinct ho
    have hpos : 0 < o.volume.toNat := hvolume
    rw [he] at hv
    omega

section Matching
variable {b : Bool} {opp : OrderBook (TCompare.ofSide (!b))} {own : OrderBook (TCompare.ofSide b)}

/-- The trades of the loop move volume from the books into the ledger. -/
theorem Accounted.matched {ledger : Ledger} (h : Accounted ledger (opp.orders ++ own.orders))
    (hopp : KeyedByPrice opp) (hown : KeyedByPrice own) :
    Accounted (ledger.record (matched b opp own).2) (matched b opp own).1.orders := by
  let booked : PriceType → OrderInsertData → Prop := fun _ o => ∃ account,
    ledger o.id = .live account ∧ account.isBuySide = o.isBuySide ∧ account.price = o.price
  have hstable : FillStable booked := fun _ _ _ hb _ => hb
  have hafter := executeOrder_forall (P := booked) (Q := booked) hstable hstable
    (fun e he o ho => h.booked o (List.mem_append_left _ (OrderBook.mem_orders.mpr ⟨e,he,ho⟩)))
    (fun e he o ho => h.booked o (List.mem_append_right _ (OrderBook.mem_orders.mpr ⟨e,he,ho⟩)))
  refine (h.record ?_ (executeOrder_ids_sublist opp own)
    (executeOrder_accounting hopp hown)).perm (orders_withSides_perm b _ _).symm
  intro o ho
  rcases List.mem_append.mp ho with ho | ho
  · obtain ⟨e,he,hoe⟩ := OrderBook.mem_orders.mp ho
    exact hafter.1 e he o hoe
  · obtain ⟨e,he,hoe⟩ := OrderBook.mem_orders.mp ho
    exact hafter.2 e he o hoe

end Matching

namespace OrderBook.Position
variable {engine : MatchingEngine} {b : Bool} {price : PriceType} {id : Id}
  (p : (engine.side b).Position price id)

/-- The orders of both books but the one of the position. -/
def others : List OrderInsertData := (engine.side (!b)).orders ++ (p.frontOrders ++ p.backOrders)

theorem engine_orders_perm : engine.orders.Perm (p.order :: p.others) := by
  refine (engine.orders_perm b).trans ?_
  rw [p.orders_eq,← List.append_assoc,others,← List.append_assoc]
  exact List.perm_middle

/-- The position is left to its amended order, unless the order is moved to a
price that has a level. -/
theorem amended_orders_perm {newPrice : PriceType} {newVolume : VolumeType} (hv : newVolume ≠ 0)
    (hprice : p.order.price = price)
    (hfree : newPrice ≠ price → (engine.side b).orderBookMap.find? newPrice = none) :
    ((engine.side (!b)).orders ++ (p.amended newPrice newVolume).orders).Perm
      (p.repriced newPrice newVolume :: p.others) := by
  unfold amended
  rw [if_neg hv]
  split_ifs with hp
  · have hnew : p.order.price = newPrice := hprice.trans hp
    have hrepriced : ({ p.order with volume := newVolume } : OrderInsertData) =
        p.repriced newPrice newVolume := by rw [repriced,← hnew]
    rw [withQueue_orders,hrepriced]
    have he : ∀ opp l1 l2 l3 l4 : List OrderInsertData, ∀ x,
        (opp ++ (l1 ++ (l2 ++ x :: l3) ++ l4)).Perm (x :: (opp ++ (l1 ++ l2 ++ (l3 ++ l4)))) := by
      intro opp l1 l2 l3 l4 x
      have hperm : ((opp ++ (l1 ++ l2)) ++ x :: (l3 ++ l4)).Perm
          (x :: ((opp ++ (l1 ++ l2)) ++ (l3 ++ l4))) := List.perm_middle
      simpa using hperm
    exact he _ _ _ _ _ _
  · rw [p.moved_of_absent hp (hfree (Ne.symm hp))]
    obtain ⟨front,back,hd,hi⟩ := p.dropped.insert_orders (p.repriced newPrice newVolume)
    rw [hi,others,← p.dropped_orders,hd,← List.append_assoc,← List.append_assoc]
    exact List.perm_middle

end OrderBook.Position

namespace Call

/-- An insert comes with an id that no insert has used. -/
def InsertsUnknown (ledger : Ledger) (call : Call Endpoint) : Prop :=
  ∀ id, call.insertedId = some id → ledger id = .unknown

/-- The request does not move a resting order to a price whose level exists. -/
def MovesToFreePrice (engine : MatchingEngine) : Call Endpoint → Prop
  | orderInsert _ _ => True
  | orderAmend a _ => a.newVolume ≠ 0 → a.newPrice ≠ a.price →
      (engine.side a.isBuySide).Rests a.price a.id →
      (engine.side a.isBuySide).orderBookMap.find? a.newPrice = none
  | orderCancel _ _ => True

end Call

/-- Distinct ids over the run keep every insert new to the ledger. -/
theorem stepsMeet_insertsUnknown {s : MatchingEngine × Ledger} {calls : List (Call Endpoint)}
    (hids : (calls.filterMap Call.insertedId).Nodup)
    (h : ∀ id ∈ calls.filterMap Call.insertedId, s.2 id = .unknown) :
    Machine.StepsMeet (Machine.observed handle Ledger.see)
      (fun s call => call.InsertsUnknown s.2) s calls := by
  induction calls generalizing s with
  | nil => trivial
  | cons call calls ih =>
    refine ⟨fun id hid => h id (List.mem_filterMap.mpr ⟨call,List.mem_cons_self,hid⟩),ih ?_ ?_⟩
    · exact hids.sublist ((List.sublist_cons_self call calls).filterMap _)
    · intro id hid
      refine Ledger.see_eq_unknown _ (fun hcall => ?_) (h id ?_)
      · rw [List.filterMap_cons_some hcall,List.nodup_cons] at hids
        exact hids.1 hid
      · exact ((List.sublist_cons_self call calls).filterMap _).subset hid

section Steps
variable {engine : MatchingEngine} {ledger : Ledger} {call : Call Endpoint}

theorem orderInsert_accounted (hrep : engine.Represented)
    (h : Accounted ledger engine.orders) {o : OrderInsertData} (hvolume : 0 < o.volume)
    (hfresh : ledger o.id = .unknown) (endpoint : Endpoint) :
    Accounted (ledger.see (.orderInsert o endpoint) (engine.orderInsert o endpoint).2)
      (engine.orderInsert o endpoint).1.orders := by
  have hs := represented_iff.mp hrep
  have hnew : ∀ q ∈ engine.orders, q.id ≠ o.id := by
    intro q hq he
    obtain ⟨account,hl,_⟩ := h.booked q hq
    rw [he,hfresh] at hl
    cases hl
  rw [orderInsert_eq engine rfl,Ledger.see_replyAndTrades]
  refine ((h.add hnew).perm ?_).matched ((hs _).imp (fun _ _ hp => hp.2.1))
    ((OrderBook.insert_forall (hs _) ⟨rfl,rfl,hvolume⟩).imp (fun _ _ hp => hp.2.1))
  obtain ⟨front,back,hold,hins⟩ := (engine.side o.isBuySide).insert_orders o
  refine ((engine.orders_perm o.isBuySide).cons o).trans ?_
  rw [hold,hins,← List.append_assoc,← List.append_assoc]
  exact List.perm_middle.symm

theorem orderAmend_accounted (hrep : engine.Represented)
    (h : Accounted ledger engine.orders) {a : OrderAmendData}
    (hfree : a.newVolume ≠ 0 → a.newPrice ≠ a.price →
      (engine.side a.isBuySide).Rests a.price a.id →
      (engine.side a.isBuySide).orderBookMap.find? a.newPrice = none) (endpoint : Endpoint) :
    Accounted (ledger.see (.orderAmend a endpoint) (engine.orderAmend a endpoint).2)
      (engine.orderAmend a endpoint).1.orders := by
  have hs := represented_iff.mp hrep
  by_cases hr : (engine.side a.isBuySide).Rests a.price a.id
  · obtain ⟨p⟩ := OrderBook.nonempty_position_iff.mpr hr
    have hat := (p.forall_order (hs _)).2.1
    have hp := h.perm p.engine_orders_perm
    rw [orderAmend_eq engine rfl p,Ledger.see_replyAndTrades]
    refine Accounted.matched ?_ ((hs _).imp (fun _ _ hp => hp.2.1))
      (p.amended_forall ((hs _).imp (fun _ _ hp => hp.2.1)) (fun _ => hat) (fun _ => rfl))
    by_cases hv : a.newVolume = 0
    · have hclosed := hp.amend_zero p.id_eq a.newPrice
      rw [← hv] at hclosed
      rw [OrderBook.Position.amended,if_pos hv,p.dropped_orders]
      exact hclosed
    · exact (hp.amend p.id_eq a.newPrice hv).perm
        (p.amended_orders_perm hv hat (fun hne => hfree hv hne hr)).symm
  · rw [orderAmend_of_not_rests engine hr,Ledger.see_error]
    exact h

theorem orderCancel_accounted (h : Accounted ledger engine.orders)
    (k : OrderCancelData) (endpoint : Endpoint) :
    Accounted (ledger.see (.orderCancel k endpoint) (engine.orderCancel k endpoint).2)
      (engine.orderCancel k endpoint).1.orders := by
  by_cases hr : (engine.side k.isBuySide).Rests k.price k.id
  · obtain ⟨p⟩ := OrderBook.nonempty_position_iff.mpr hr
    rw [orderCancel_eq engine rfl p,Ledger.see_replyAndTrades,Ledger.record_nil]
    refine ((h.perm p.engine_orders_perm).close p.id_eq).perm ?_
    have hperm := orders_withSides_perm k.isBuySide (engine.side (!k.isBuySide))
      (p.withQueue (p.before ++ p.after))
    rw [p.removed_orders] at hperm
    exact hperm.symm
  · rw [orderCancel_of_not_rests engine hr,Ledger.see_error]
    exact h

theorem handle_reconciled {s : MatchingEngine × Ledger} (h : Reconciled s)
    (hvolume : call.InsertsVolume) (hfresh : call.InsertsUnknown s.2)
    (hfree : call.MovesToFreePrice s.1) :
    Reconciled (Machine.observed handle Ledger.see s call).1 := by
  refine ⟨handle_represented h.represented hvolume,?_⟩
  cases call with
  | orderInsert o endpoint => exact orderInsert_accounted h.represented h.accounted hvolume (hfresh o.id rfl) endpoint
  | orderAmend a endpoint => exact orderAmend_accounted h.represented h.accounted hfree endpoint
  | orderCancel k endpoint => exact orderCancel_accounted h.accounted k endpoint

/-- A move to a price that has a level is acknowledged with the whole new volume
outstanding, and the order rests nowhere. -/
theorem orderAmend_loses_order (hrep : engine.Represented) (h : Accounted ledger engine.orders)
    {a : OrderAmendData} (hv : a.newVolume ≠ 0) (hne : a.newPrice ≠ a.price)
    (p : (engine.side a.isBuySide).Position a.price a.id) {level : OrderLevel}
    (hlevel : (engine.side a.isBuySide).orderBookMap.find? a.newPrice = some level)
    (endpoint : Endpoint) :
    (∀ o ∈ (engine.orderAmend a endpoint).1.orders, o.id ≠ a.id) ∧ ∃ isBuySide,
      ledger.see (.orderAmend a endpoint) (engine.orderAmend a endpoint).2 a.id =
        .live ⟨isBuySide,a.newPrice,a.newVolume,0⟩ := by
  have hs := represented_iff.mp hrep
  have hp := h.perm p.engine_orders_perm
  have hgone : ∀ o ∈ (engine.side (!a.isBuySide)).orders ++ p.dropped.orders, o.id ≠ a.id := by
    rw [p.dropped_orders]
    exact fun o ho he => hp.ne_of_mem ho (he.trans p.id_eq.symm)
  rw [orderAmend_eq engine rfl p,OrderBook.Position.amended,if_neg hv,if_neg (Ne.symm hne),
    p.moved_of_present hlevel,Ledger.see_replyAndTrades]
  constructor
  · intro o ho he
    have hmem := List.mem_map_of_mem (f := fun o => o.id)
      ((orders_withSides_perm a.isBuySide _ _).mem_iff.mp ho)
    obtain ⟨o',ho',he'⟩ := List.mem_map.mp ((executeOrder_ids_sublist _ _).subset hmem)
    exact hgone o' ho' (he'.trans he)
  · obtain ⟨account,hlive,_⟩ := hp.booked p.order List.mem_cons_self
    have hacc := executeOrder_accounting ((hs (!a.isBuySide)).imp (fun _ _ hp => hp.2.1))
      (p.dropped_forall ((hs a.isBuySide).imp (fun _ _ hp => hp.2.1))) a.id
    rw [volumeOf_eq_zero a.id hgone] at hacc
    have htraded : tradedVolumeOf a.id
        (matched a.isBuySide (engine.side (!a.isBuySide)) p.dropped).2 = 0 :=
      (Nat.add_eq_zero_iff.mp hacc).2
    rw [p.id_eq] at hlive
    refine ⟨account.isBuySide,?_⟩
    simp only [Ledger.record,htraded,Standing.credit_zero,Ledger.acknowledge,Function.update_self,
      hlive,Standing.amended,if_neg hv]

theorem handle_breaks_ledger {s : MatchingEngine × Ledger} (h : Reconciled s)
    (hmove : ¬ call.MovesToFreePrice s.1) :
    ¬ LedgerHolds (Machine.observed handle Ledger.see s call).1 := by
  cases call with
  | orderInsert o endpoint => exact absurd trivial hmove
  | orderCancel k endpoint => exact absurd trivial hmove
  | orderAmend a endpoint =>
    simp only [Call.MovesToFreePrice,not_forall] at hmove
    obtain ⟨hv,hne,hr,hpresent⟩ := hmove
    obtain ⟨p⟩ := OrderBook.nonempty_position_iff.mpr hr
    obtain ⟨level,hlevel⟩ := Option.ne_none_iff_exists'.mp hpresent
    obtain ⟨hgone,isBuySide,hlive⟩ :=
      orderAmend_loses_order h.represented h.accounted hv hne p hlevel endpoint
    intro hholds
    have hpos : 0 < a.newVolume.toNat := UInt64.pos_iff_ne_zero.mpr hv
    obtain ⟨o,_,hf,_⟩ := (hholds a.id _ hlive).2.1 (by simp only [Account.outstanding]; omega)
    obtain ⟨ho,hid⟩ := List.mem_filter.mp (hf.symm ▸ List.mem_singleton_self o)
    exact hgone o ho (of_decide_eq_true hid)

end Steps

theorem initial_reconciled : Reconciled (fresh,Ledger.initial) :=
  ⟨fresh_represented,fun _ ho => absurd ho List.not_mem_nil,List.nodup_nil,fun _ _ hl => by cases hl⟩

/-- Over a run of distinct inserted ids, the ledger holds after every call exactly
when no amend moves a resting order to a price whose level exists. -/
theorem ledgerHolds_iff_movesToFreePrice (calls : List (Call Endpoint))
    (hvolume : ∀ call ∈ calls, call.InsertsVolume)
    (hids : (calls.filterMap Call.insertedId).Nodup) :
    (∀ r ∈ Machine.trace (Machine.observed handle Ledger.see) (fresh,Ledger.initial) calls,
      LedgerHolds r.1) ↔
    Machine.StepsMeet handle (fun engine call => call.MovesToFreePrice engine) fresh calls := by
  have hnew := stepsMeet_insertsUnknown (s := (fresh,Ledger.initial)) hids (fun _ _ => rfl)
  refine Iff.trans ?_ (@Machine.stepsMeet_observed _ _ _ _ handle Ledger.see _
    (fresh,Ledger.initial) calls)
  exact Machine.trace_forall_iff (D := fun s call => call.InsertsVolume ∧ call.InsertsUnknown s.2)
    (fun _ h => h.ledgerHolds) (fun _ _ h hd hc => handle_reconciled h hd.1 hd.2 hc)
    (fun _ _ h _ hc => handle_breaks_ledger h hc) initial_reconciled
    ((Machine.stepsMeet_of_forall hvolume).and hnew)

/-- A bid for 10 is moved from 50 to 60, where it trades 4 and rests with 6. -/
def movedAndTraded : List (Call Unit) :=
  [.orderInsert (limitOrder true "1" 50 10) (),.orderInsert (limitOrder false "2" 60 4) (),
    .orderAmend { limitOrder true "1" 50 10 with newPrice := 60, newVolume := 10 } ()]

theorem ledgerHolds_iff_movesToFreePrice_traded :
    LedgerHolds (Machine.final (Machine.observed handle Ledger.see) (fresh,Ledger.initial)
      movedAndTraded) ∧
    (Machine.final handle fresh movedAndTraded).bids.orders = [limitOrder true "1" 60 6] := by
  refine ⟨(ledgerHolds_iff_movesToFreePrice movedAndTraded
    (by simp [movedAndTraded,Call.InsertsVolume,limitOrder]) (by decide)).mpr
    ⟨trivial,trivial,fun _ _ _ => rfl,trivial⟩ _
    (List.mem_cons_of_mem _ (List.mem_cons_of_mem _ List.mem_cons_self)),by decide⟩

/-- The bid at 50 is moved to 40, where another bid rests. -/
def movedOntoLevel : List (Call Unit) :=
  [.orderInsert (limitOrder true "1" 50 10) (),.orderInsert (limitOrder true "2" 40 10) (),
    .orderAmend { limitOrder true "1" 50 10 with newPrice := 40, newVolume := 10 } ()]

/-- The amend is acknowledged and the order rests nowhere. -/
theorem movedOntoLevel_lost : (∀ call ∈ movedOntoLevel, call.InsertsVolume) ∧
    (movedOntoLevel.filterMap Call.insertedId).Nodup ∧
    ¬ ∀ r ∈ Machine.trace (Machine.observed handle Ledger.see) (fresh,Ledger.initial) movedOntoLevel,
      LedgerHolds r.1 := by
  refine ⟨by simp [movedOntoLevel,Call.InsertsVolume,limitOrder],by decide,fun h => ?_⟩
  have hlast := h _ (List.mem_cons_of_mem _ (List.mem_cons_of_mem _ List.mem_cons_self))
  obtain ⟨o,level,hf,_⟩ := (hlast "1" ⟨true,40,10,0⟩ rfl).2.1 (by decide)
  cases hf

end Moboware
