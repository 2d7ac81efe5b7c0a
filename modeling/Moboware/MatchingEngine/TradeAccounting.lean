import Moboware.MatchingEngine.Representation

/-! # Trade accounting of the matching loop

Volumes are added up by order id, over resting orders and over trades. A fill
moves volume from the first sum to the second, and the loop moves nothing else.
-/
namespace Moboware
open Library OrderLevel OrderBook
variable {c d : TCompare}

/-- The volume that rests under an id. -/
def volumeOf (id : Id) : List OrderInsertData → ℕ
  | [] => 0
  | o :: orders => (if o.id = id then o.volume.toNat else 0) + volumeOf id orders

/-- The volume that trades report for an id. -/
def tradedVolumeOf (id : Id) : List Trade → ℕ
  | [] => 0
  | t :: trades => (if t.id = id then t.tradedVolume.toNat else 0) + tradedVolumeOf id trades

section Sums
variable (id : Id)

@[simp] theorem volumeOf_nil : volumeOf id [] = 0 := rfl

@[simp] theorem volumeOf_cons (o : OrderInsertData) (orders : List OrderInsertData) :
    volumeOf id (o :: orders) = (if o.id = id then o.volume.toNat else 0) + volumeOf id orders := rfl

@[simp] theorem volumeOf_append (orders orders' : List OrderInsertData) :
    volumeOf id (orders ++ orders') = volumeOf id orders + volumeOf id orders' := by
  induction orders with
  | nil => simp
  | cons o orders ih => rw [List.cons_append,volumeOf_cons,volumeOf_cons,ih,Nat.add_assoc]

theorem volumeOf_perm {orders orders' : List OrderInsertData} (h : orders.Perm orders') :
    volumeOf id orders = volumeOf id orders' := by
  induction h with
  | nil => rfl
  | cons o _ ih => rw [volumeOf_cons,volumeOf_cons,ih]
  | swap o o' orders =>
    simp only [volumeOf_cons]
    omega
  | trans _ _ ih ih' => exact ih.trans ih'

@[simp] theorem tradedVolumeOf_nil : tradedVolumeOf id [] = 0 := rfl

@[simp] theorem tradedVolumeOf_cons (t : Trade) (trades : List Trade) :
    tradedVolumeOf id (t :: trades) =
      (if t.id = id then t.tradedVolume.toNat else 0) + tradedVolumeOf id trades := rfl

@[simp] theorem tradedVolumeOf_append (trades trades' : List Trade) :
    tradedVolumeOf id (trades ++ trades') = tradedVolumeOf id trades + tradedVolumeOf id trades' := by
  induction trades with
  | nil => simp
  | cons t trades ih =>
    rw [List.cons_append,tradedVolumeOf_cons,tradedVolumeOf_cons,ih,Nat.add_assoc]

/-- The volume of the first order with the id, and 0 when there is none. -/
def restingVolume (orders : List OrderInsertData) : ℕ :=
  match orders.find? (fun o => decide (o.id = id)) with
  | some o => o.volume.toNat
  | none => 0

theorem volumeOf_eq_zero {orders : List OrderInsertData} (h : ∀ o ∈ orders, o.id ≠ id) :
    volumeOf id orders = 0 := by
  induction orders with
  | nil => rfl
  | cons o orders ih =>
    rw [volumeOf_cons,if_neg (h o List.mem_cons_self),
      ih (fun q hq => h q (List.mem_cons_of_mem o hq))]

/-- With distinct ids the sum has one term. -/
theorem volumeOf_eq_restingVolume {orders : List OrderInsertData}
    (h : (orders.map (fun o => o.id)).Nodup) : volumeOf id orders = restingVolume id orders := by
  induction orders with
  | nil => rfl
  | cons o orders ih =>
    rw [List.map_cons,List.nodup_cons] at h
    rw [volumeOf_cons]
    by_cases ho : o.id = id
    · have hrest : volumeOf id orders = 0 := volumeOf_eq_zero id (fun q hq he =>
        h.1 (ho ▸ he ▸ List.mem_map_of_mem hq))
      simp [restingVolume,ho,hrest]
    · rw [if_neg ho,Nat.zero_add,ih h.2]
      simp [restingVolume,ho]

theorem volumeOf_of_mem {orders : List OrderInsertData} (h : (orders.map (fun o => o.id)).Nodup)
    {o : OrderInsertData} (ho : o ∈ orders) : volumeOf o.id orders = o.volume.toNat := by
  obtain ⟨front,back,rfl⟩ := List.append_of_mem ho
  rw [List.map_append,List.map_cons,List.nodup_append,List.nodup_cons] at h
  have hf : volumeOf o.id front = 0 := volumeOf_eq_zero o.id (fun q hq he =>
    h.2.2 q.id (List.mem_map_of_mem hq) o.id List.mem_cons_self he)
  have hb : volumeOf o.id back = 0 := volumeOf_eq_zero o.id (fun q hq he =>
    h.2.1.1 (he ▸ List.mem_map_of_mem hq))
  simp [hf,hb]

/-- What a fill takes from the front of a queue is what the trade reports. -/
theorem volumeOf_settle {o : OrderInsertData} {v : VolumeType} (hv : v ≤ o.volume)
    (rest : List OrderInsertData) :
    volumeOf id (settle o v rest) + (if o.id = id then v.toNat else 0) = volumeOf id (o :: rest) := by
  have hsub : (o.volume - v).toNat = o.volume.toNat - v.toNat := UInt64.toNat_sub_of_le _ _ hv
  have hle : v.toNat ≤ o.volume.toNat := hv
  unfold settle
  split_ifs with hz hid hid
  · have h0 : (o.volume - v).toNat = 0 := by rw [hz]; rfl
    rw [volumeOf_cons,if_pos hid]
    omega
  · rw [volumeOf_cons,if_neg hid]
    omega
  · rw [volumeOf_cons,volumeOf_cons,if_pos hid,if_pos hid,hsub]
    omega
  · simp only [volumeOf_cons,if_neg hid,Nat.add_zero]

end Sums

theorem ids_settle_sublist (o : OrderInsertData) (v : VolumeType) (rest : List OrderInsertData) :
    ((settle o v rest).map (fun q => q.id)).Sublist ((o :: rest).map (fun q => q.id)) := by
  unfold settle
  split_ifs
  · exact List.sublist_cons_self _ _
  · exact List.Sublist.refl _

/-- Every order sits in the level of its price. -/
abbrev KeyedByPrice (book : OrderBook c) : Prop := book.Forall (fun price o => o.price = price)

theorem keyedByPrice_fillStable : FillStable (fun price o => o.price = price) := fun _ _ _ h _ => h

namespace OrderBook.Front
variable {book : OrderBook c} (f : Front book)

theorem volumeOf_fill (hkey : f.best.price = f.key) {v : VolumeType} (hv : v ≤ f.best.volume)
    (id : Id) : volumeOf id (f.fill v).orders + (if f.best.id = id then v.toNat else 0) =
      volumeOf id book.orders := by
  have hs := volumeOf_settle id hv f.queue
  rw [f.fill_orders hkey,f.orders_eq,volumeOf_append,volumeOf_append]
  omega

theorem ids_fill_sublist (v : VolumeType) :
    ((f.fill v).orders.map (fun o => o.id)).Sublist (book.orders.map (fun o => o.id)) := by
  refine ((f.fill_orders_sublist v).map _).trans ?_
  rw [f.orders_eq,List.map_append,List.map_append]
  exact (ids_settle_sublist f.best v f.queue).append_right _

end OrderBook.Front

/-- Resting and traded volume of every id, over one round. -/
theorem executeRound_accounting {books books' : OrderBook c × OrderBook d} {trades : List Trade}
    (hopp : KeyedByPrice books.1) (hown : KeyedByPrice books.2)
    (hb : executeRound books = some (books',trades)) (id : Id) :
    volumeOf id (books'.1.orders ++ books'.2.orders) + tradedVolumeOf id trades =
      volumeOf id (books.1.orders ++ books.2.orders) := by
  obtain ⟨x,o,_,he⟩ := executeRound_eq_some_iff.mp hb
  cases he
  have hx := x.volumeOf_fill (x.forall_best hopp) (roundVolume_le_left x.best o.best) id
  have ho := o.volumeOf_fill (o.forall_best hown) (roundVolume_le_right x.best o.best) id
  simp only [volumeOf_append,tradedVolumeOf_cons,tradedVolumeOf_nil,OrderDataBase.tradeOf]
  omega

theorem executeOrder_accounting {opp : OrderBook c} {own : OrderBook d}
    (hopp : KeyedByPrice opp) (hown : KeyedByPrice own) (id : Id) :
    volumeOf id ((executeOrder opp own).1.1.orders ++ (executeOrder opp own).1.2.orders) +
      tradedVolumeOf id (executeOrder opp own).2 = volumeOf id (opp.orders ++ own.orders) := by
  refine (executeLoop c d).run_induction
    (P := fun s r => KeyedByPrice s.1 ∧ KeyedByPrice s.2 →
      volumeOf id (r.1.1.orders ++ r.1.2.orders) + tradedVolumeOf id r.2 =
        volumeOf id (s.1.orders ++ s.2.orders)) ?_ ?_ (opp,own) ⟨hopp,hown⟩
  · exact fun _ _ _ => rfl
  · intro s s' out r hb ih hs
    have hs' := executeRound_forall keyedByPrice_fillStable keyedByPrice_fillStable hs hb
    have hround := executeRound_accounting hs.1 hs.2 hb id
    have hrest := ih hs'
    simp only [tradedVolumeOf_append]
    omega

/-- No id appears that did not rest before, and none is repeated. -/
theorem executeOrder_ids_sublist (opp : OrderBook c) (own : OrderBook d) :
    (((executeOrder opp own).1.1.orders ++ (executeOrder opp own).1.2.orders).map
      (fun o => o.id)).Sublist ((opp.orders ++ own.orders).map (fun o => o.id)) := by
  refine (executeLoop c d).run_induction
    (P := fun s r => ((r.1.1.orders ++ r.1.2.orders).map (fun o => o.id)).Sublist
      ((s.1.orders ++ s.2.orders).map (fun o => o.id))) ?_ ?_ (opp,own)
  · exact fun _ _ => List.Sublist.refl _
  · intro s s' out r hb ih
    obtain ⟨x,o,_,he⟩ := executeRound_eq_some_iff.mp hb
    cases he
    refine ih.trans ?_
    rw [List.map_append,List.map_append]
    exact (x.ids_fill_sublist _).append (o.ids_fill_sublist _)

/-- What one round reports: the fronts of both books at the head of the round trade
the smaller of their volumes, each at its own limit price, opposite side first; the
buy order pays at least what the sell order asks, and neither subtraction wraps. -/
def RoundTrades (b : Bool) (books : OrderBook c × OrderBook d) (trades : List Trade) : Prop :=
  ∃ (x : books.1.Front) (o : books.2.Front) (v : VolumeType),
    v = min x.best.volume o.best.volume ∧
    trades = [⟨x.best.account,x.best.price,v,x.best.id,x.best.clientId⟩,
      ⟨o.best.account,o.best.price,v,o.best.id,o.best.clientId⟩] ∧
    (if b then o.best.price ≥ x.best.price else x.best.price ≥ o.best.price) ∧
    (x.best.volume - v).toNat = x.best.volume.toNat - v.toNat ∧ v ≤ x.best.volume ∧
    (o.best.volume - v).toNat = o.best.volume.toNat - v.toNat ∧ v ≤ o.best.volume

/-- The orders of a book are on its side and in the level of their price. -/
abbrev OnSide (b : Bool) (book : OrderBook c) : Prop :=
  book.Forall (fun price o => o.isBuySide = b ∧ o.price = price)

theorem onSide_fillStable (b : Bool) :
    FillStable (fun price o => o.isBuySide = b ∧ o.price = price) := fun _ _ _ h _ => h

theorem executeRound_trades {b : Bool} {books books' : OrderBook c × OrderBook d}
    {trades : List Trade} (hown : OnSide b books.2)
    (hb : executeRound books = some (books',trades)) : RoundTrades b books trades := by
  obtain ⟨x,o,hm,he⟩ := executeRound_eq_some_iff.mp hb
  cases he
  have hx := roundVolume_le_left x.best o.best
  have ho := roundVolume_le_right x.best o.best
  refine ⟨x,o,roundVolume x.best o.best,rfl,rfl,?_,UInt64.toNat_sub_of_le _ _ hx,hx,
    UInt64.toNat_sub_of_le _ _ ho,ho⟩
  rw [matchPricePredicate,(o.forall_best hown).1] at hm
  cases b <;> simpa using hm

/-- Trade accounting of `ExecuteOrder`, with empty levels, zero volumes and crossed
prices allowed: the trades are those of the rounds, a pair each, and the volume of
every order is what it keeps plus what its trades report. -/
theorem executeOrder_trade_accounting {b : Bool} {opp : OrderBook (TCompare.ofSide (!b))}
    {own : OrderBook (TCompare.ofSide b)} (hopp : OnSide (!b) opp) (hown : OnSide b own)
    (hids : ((opp.orders ++ own.orders).map (fun o => o.id)).Nodup) :
    (∃ rounds, (executeLoop _ _).Rounds (opp,own) rounds (executeOrder opp own).1 ∧
      (executeOrder opp own).2 = rounds.flatMap Prod.snd ∧
      ∀ r ∈ rounds, RoundTrades b r.1 r.2) ∧
    ∀ o ∈ opp.orders ++ own.orders, o.volume.toNat =
      restingVolume o.id
        ((executeOrder opp own).1.1.orders ++ (executeOrder opp own).1.2.orders) +
      tradedVolumeOf o.id (executeOrder opp own).2 := by
  constructor
  · obtain ⟨rounds,hr,he⟩ := (executeLoop _ _).exists_rounds (opp,own)
    refine ⟨rounds,hr,he,?_⟩
    refine hr.forall_of_invariant
      (I := fun books => OnSide (!b) books.1 ∧ OnSide b books.2) ?_ ⟨hopp,hown⟩
    intro s s' out hs hb
    exact ⟨executeRound_forall (onSide_fillStable (!b)) (onSide_fillStable b) hs hb,
      executeRound_trades hs.2 hb⟩
  · intro o ho
    have hkeyed := executeOrder_accounting (hopp.imp (fun _ _ h => h.2))
      (hown.imp (fun _ _ h => h.2)) o.id
    have hnodup := hids.sublist (executeOrder_ids_sublist opp own)
    rw [volumeOf_of_mem hids ho,volumeOf_eq_restingVolume o.id hnodup] at hkeyed
    exact hkeyed.symm

/-- A bid for 10 at 50 against asks for 4 at 30, for nothing at 40 and for 3 at 60. -/
theorem executeOrder_trade_accounting_swept :
    let asks : OrderBook .less := ((((OrderBook.empty.insert (limitOrder false "1" 30 4)).1.insert
      (limitOrder false "2" 40 0)).1).insert (limitOrder false "3" 60 3)).1
    let bids : OrderBook .greater := (OrderBook.empty.insert (limitOrder true "4" 50 10)).1
    ∀ o ∈ asks.orders ++ bids.orders, o.volume.toNat =
      restingVolume o.id ((executeOrder asks bids).1.1.orders ++
        (executeOrder asks bids).1.2.orders) + tradedVolumeOf o.id (executeOrder asks bids).2 :=
  (@executeOrder_trade_accounting true
    ((((OrderBook.empty.insert (limitOrder false "1" 30 4)).1.insert
      (limitOrder false "2" 40 0)).1).insert (limitOrder false "3" 60 3)).1
    (OrderBook.empty.insert (limitOrder true "4" 50 10)).1
    (by decide) (by decide) (by decide)).2

end Moboware
