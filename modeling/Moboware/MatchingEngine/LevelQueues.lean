import Moboware.MatchingEngine.LockedRequests
import Moboware.MatchingEngine.Representation

/-! # The queues of the levels

What a request does to the queue of a level: an inserted order goes to its end, an amended one
keeps its place or opens a level of its own, and everything else only leaves.
-/
namespace Moboware
open Library MatchingEngine OrderLevel
variable {Endpoint : Type*} {c d : TCompare}

/-- A property of queues that survives what amends, cancels and fills do to them. -/
structure QueueStable (Q : List OrderInsertData → Prop) : Prop where
  sublist : ∀ {queue queue'}, queue.Sublist queue' → Q queue' → Q queue
  amend : ∀ {before o after} price volume, Q (before ++ o :: after) →
    Q (before ++ { o with price, volume } :: after)

namespace OrderBook
variable {Q R : List OrderInsertData → Prop}

/-- A property of the queue of every level. -/
def Queues (Q : List OrderInsertData → Prop) (book : OrderBook c) : Prop :=
  ∀ e ∈ book.orderBookMap.entries, Q e.2.timeQueue

theorem Queues.imp {book : OrderBook c} (h : book.Queues Q) (hQR : ∀ queue, Q queue → R queue) :
    book.Queues R := fun e he => hQR _ (h e he)

theorem insert_queues {book : OrderBook c} {o : OrderInsertData} (h : book.Queues Q)
    (hone : R [o]) (hmore : ∀ queue, Q queue → R queue ∧ R (queue ++ [o])) :
    (book.insert o).1.Queues R := by
  obtain ⟨timeQueue,pre,post,hs,hold⟩ := book.insert_split o
  have hlevel : R (timeQueue ++ [o]) := by
    rcases hold with hold | ⟨rfl,_⟩
    · exact (hmore _ (h (o.price,⟨timeQueue⟩) (by simp [hold.entries]))).2
    · exact hone
  have hrest : ∀ e ∈ pre ++ post, R e.2.timeQueue := by
    intro e he
    refine (hmore _ (h e ?_)).1
    rcases hold with hold | ⟨_,hold⟩
    · rw [hold.entries]
      rcases List.mem_append.mp he with he | he <;> simp [he]
    · exact hold ▸ he
  intro e he
  rw [hs.entries,List.mem_append,List.mem_cons] at he
  rcases he with he | rfl | he
  · exact hrest e (List.mem_append_left post he)
  · exact hlevel
  · exact hrest e (List.mem_append_right pre he)

namespace Position
variable {book : OrderBook c} {price : PriceType} {id : Id} (p : Position book price id)

theorem queue (h : book.Queues Q) : Q (p.before ++ p.order :: p.after) :=
  h (price,⟨p.before ++ p.order :: p.after⟩) (by simp [p.split.entries])

theorem queue_removed (hQ : QueueStable Q) (h : book.Queues Q) : Q (p.before ++ p.after) :=
  hQ.sublist (List.Sublist.append_left (List.sublist_cons_self ..) _) (p.queue h)

theorem withQueue_queues {timeQueue : List OrderInsertData} (h : book.Queues Q)
    (hq : Q timeQueue) : (p.withQueue timeQueue).Queues Q := by
  intro e he
  rw [(p.withQueue_split timeQueue).entries,List.mem_append,List.mem_cons] at he
  rcases he with he | rfl | he
  · exact h e (by simp [p.split.entries,he])
  · exact hq
  · exact h e (by simp [p.split.entries,he])

theorem dropped_queues (hQ : QueueStable Q) (h : book.Queues Q) : p.dropped.Queues Q := by
  unfold dropped
  split_ifs
  · exact fun e he => h e (OrderedMap.mem_erase.mp he).1
  · exact p.withQueue_queues h (p.queue_removed hQ h)

/-- A moved order is alone in its level, as a move onto a level that is there inserts nothing. -/
theorem amended_queues (hQ : QueueStable Q) (h : book.Queues Q) (newPrice : PriceType)
    (newVolume : VolumeType) : (p.amended newPrice newVolume).Queues Q := by
  unfold amended
  split_ifs with _ hprice
  · exact p.dropped_queues hQ h
  · exact p.withQueue_queues h (hQ.amend p.order.price newVolume (p.queue h))
  · cases hf : book.orderBookMap.find? newPrice with
    | some level =>
      rw [p.moved_of_present hf]
      exact p.dropped_queues hQ h
    | none =>
      have halone : Q [p.repriced newPrice newVolume] := by
        refine hQ.sublist ?_ (hQ.amend newPrice newVolume (p.queue h))
        exact List.singleton_sublist.mpr (List.mem_append_right _ List.mem_cons_self)
      have habsent : p.dropped.orderBookMap.find? newPrice = none := by
        rw [p.dropped_find?,if_neg (Ne.symm hprice),hf]
      rw [p.moved_of_absent hprice hf,
        insert_of_absent (o := p.repriced newPrice newVolume) habsent]
      obtain ⟨_,pre,post,hentries,hs⟩ := OrderedMap.emplace_of_find?_none habsent
        (⟨[p.repriced newPrice newVolume]⟩ : OrderLevel)
      intro e he
      change e ∈ (p.dropped.orderBookMap.emplace newPrice _).1.entries at he
      rw [hs.entries,List.mem_append,List.mem_cons] at he
      rcases he with he | rfl | he
      · exact p.dropped_queues hQ h e (hentries ▸ List.mem_append_left post he)
      · exact halone
      · exact p.dropped_queues hQ h e (hentries ▸ List.mem_append_right pre he)

end Position

theorem Front.fill_queues (hQ : QueueStable Q) {book : OrderBook c} (f : Front book)
    (h : book.Queues Q) (v : VolumeType) : (f.fill v).Queues Q := by
  unfold OrderBook.Queues at h
  rw [f.entries_eq] at h
  have hqueue : Q (f.best :: f.queue) := h _ List.mem_cons_self
  intro e he
  rcases f.mem_fill_entries he with rfl | he
  · change Q (settle f.best v f.queue)
    unfold settle
    split_ifs
    · exact hQ.sublist (List.sublist_cons_self ..) hqueue
    · have hfront : Q ([] ++ f.best :: f.queue) := hqueue
      exact hQ.amend f.best.price (f.best.volume - v) hfront
  · exact h e (List.mem_cons_of_mem _ he)

end OrderBook

theorem executeOrder_queues {Q R : List OrderInsertData → Prop} (hQ : QueueStable Q)
    (hR : QueueStable R) {opp : OrderBook c} {own : OrderBook d} (hopp : opp.Queues Q)
    (hown : own.Queues R) :
    (executeOrder opp own).1.1.Queues Q ∧ (executeOrder opp own).1.2.Queues R := by
  refine (executeLoop c d).run_invariant (I := fun books => books.1.Queues Q ∧ books.2.Queues R)
    (fun books books' trades h hb => ?_) ⟨hopp,hown⟩
  obtain ⟨x,o,_,he⟩ := executeRound_eq_some_iff.mp hb
  cases he
  exact ⟨x.fill_queues hQ h.1 _,o.fill_queues hR h.2 _⟩

namespace MatchingEngine
variable {Q R : Bool → List OrderInsertData → Prop}

/-- The queues behind the edit of a request, where an insert may need another property. -/
theorem editBook_queues (hR : ∀ b, QueueStable (R b)) {engine : MatchingEngine}
    {call : Call Endpoint} (h : ∀ b, (engine.side b).Queues (Q b))
    (hkeep : ∀ b queue, Q b queue → R b queue)
    (hinsert : ∀ o endpoint, call = .orderInsert o endpoint → R o.isBuySide [o] ∧
      ∀ queue, Q o.isBuySide queue → R o.isBuySide (queue ++ [o])) :
    ∀ b, ((engine.editBook call).1.side b).Queues (R b) := by
  have hside : ∀ b, (engine.side b).Queues (R b) := fun b => (h b).imp (hkeep b)
  cases call with
  | orderInsert o endpoint =>
    obtain ⟨hone,hmore⟩ := hinsert o endpoint rfl
    have hown : ((engine.side o.isBuySide).insert o).1.Queues (R o.isBuySide) :=
      OrderBook.insert_queues (h _) hone (fun queue hq => ⟨hkeep _ _ hq,hmore queue hq⟩)
    exact forall_side_withSides.mpr ⟨hside _,hown⟩
  | orderAmend a endpoint =>
    have hown : ((engine.side a.isBuySide).amend a).1.Queues (R a.isBuySide) := by
      by_cases hr : (engine.side a.isBuySide).Rests a.price a.id
      · obtain ⟨p⟩ := OrderBook.nonempty_position_iff.mpr hr
        rw [OrderBook.amend_of_position p]
        exact p.amended_queues (hR _) (hside _) _ _
      · rw [OrderBook.amend_of_not_rests hr]
        exact hside _
    exact forall_side_withSides.mpr ⟨hside _,hown⟩
  | orderCancel k endpoint =>
    have hown : ((engine.side k.isBuySide).cancel k).1.Queues (R k.isBuySide) := by
      by_cases hr : (engine.side k.isBuySide).Rests k.price k.id
      · obtain ⟨p⟩ := OrderBook.nonempty_position_iff.mpr hr
        rw [OrderBook.cancel_of_position p]
        exact p.withQueue_queues (hside _) (p.queue_removed (hR _) (hside _))
      · rw [OrderBook.cancel_of_not_rests hr]
        exact hside _
    exact forall_side_withSides.mpr ⟨hside _,hown⟩

theorem matched_queues (hR : ∀ b, QueueStable (R b)) {b : Bool}
    {opp : OrderBook (TCompare.ofSide (!b))} {own : OrderBook (TCompare.ofSide b)}
    (hopp : opp.Queues (R (!b))) (hown : own.Queues (R b)) :
    ∀ b', ((matched b opp own).1.side b').Queues (R b') :=
  forall_side_withSides.mpr (executeOrder_queues (hR _) (hR _) hopp hown)

end MatchingEngine
end Moboware
