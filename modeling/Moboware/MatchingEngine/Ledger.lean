import Mathlib.Data.Int.Notation
import Moboware.MatchingEngine.TradeAccounting

/-! # The order ledger

What a client can know of its orders from the replies and trades it is sent. The
ledger is kept next to the engine by an observer of the messages, and compared with
the orders that rest in the two books.
-/
namespace Moboware
open Library MatchingEngine OrderBook
variable {Endpoint : Type*}

/-- A live order as last acknowledged, and what it traded since. -/
structure Account where
  isBuySide : Bool
  price : PriceType
  volume : VolumeType
  traded : ℕ

/-- The volume that should still rest. -/
def Account.outstanding (account : Account) : ℤ :=
  (account.volume.toNat : ℤ) - (account.traded : ℤ)

def Account.ofOrder (o : OrderInsertData) : Account := ⟨o.isBuySide,o.price,o.volume,0⟩

/-- What the replies have said about an id. -/
inductive Standing
  | unknown
  | live (account : Account)
  | cancelled

namespace Standing

def closed : Standing → Standing
  | live _ => cancelled
  | standing => standing

/-- An amend to no volume is a cancellation. -/
def amended (newPrice : PriceType) (newVolume : VolumeType) : Standing → Standing
  | live account =>
    if newVolume = 0 then cancelled
    else live { account with price := newPrice, volume := newVolume, traded := 0 }
  | standing => standing

def credit (volume : ℕ) : Standing → Standing
  | live account => live { account with traded := account.traded + volume }
  | standing => standing

@[simp] theorem credit_zero (standing : Standing) : standing.credit 0 = standing := by
  cases standing <;> rfl

@[simp] theorem credit_eq_unknown_iff {standing : Standing} {volume : ℕ} :
    standing.credit volume = unknown ↔ standing = unknown := by
  cases standing <;> simp [credit]

theorem credit_eq_live_iff {standing : Standing} {volume : ℕ} {account : Account} :
    standing.credit volume = live account ↔ ∃ account', standing = live account' ∧
      account = { account' with traded := account'.traded + volume } := by
  cases standing <;> simp [credit,eq_comm]

end Standing

abbrev Ledger := Id → Standing

/-- The id an insert introduces. -/
def Call.insertedId : Call Endpoint → Option Id
  | orderInsert o _ => some o.id
  | _ => none

namespace Message

def isOrderReply : Message → Bool
  | orderReply _ => true
  | _ => false

def trade? : Message → Option Trade
  | trade t => some t
  | _ => none

end Message

namespace Ledger

def initial : Ledger := fun _ => .unknown

/-- The effect of an `OrderReply` to the call. -/
def acknowledge (ledger : Ledger) : Call Endpoint → Ledger
  | .orderInsert o _ => Function.update ledger o.id (.live (Account.ofOrder o))
  | .orderAmend a _ =>
    Function.update ledger a.id ((ledger a.id).amended a.newPrice a.newVolume)
  | .orderCancel k _ => Function.update ledger k.id (ledger k.id).closed

def record (ledger : Ledger) (trades : List Trade) : Ledger :=
  fun id => (ledger id).credit (tradedVolumeOf id trades)

/-- The observer: replies first, then the trades that follow them. -/
def see (ledger : Ledger) (call : Call Endpoint) (messages : List (Message × Endpoint)) : Ledger :=
  (if messages.any (fun m => m.1.isOrderReply) then ledger.acknowledge call else ledger).record
    (messages.filterMap (fun m => m.1.trade?))

@[simp] theorem record_nil (ledger : Ledger) : ledger.record [] = ledger :=
  funext (fun id => Standing.credit_zero (ledger id))

theorem see_replyAndTrades (ledger : Ledger) (call : Call Endpoint) (reply : OrderReply)
    (trades : List Trade) (endpoint : Endpoint) :
    ledger.see call (replyAndTrades reply trades endpoint) =
      (ledger.acknowledge call).record trades := by
  have htrades : (replyAndTrades reply trades endpoint).filterMap (fun m => m.1.trade?) = trades := by
    rw [replyAndTrades,List.filterMap_cons_none rfl,List.filterMap_map]
    exact List.filterMap_some
  simp only [see,htrades]
  rfl

theorem see_error (ledger : Ledger) (call : Call Endpoint) (reply : ErrorReply)
    (endpoint : Endpoint) : ledger.see call [(.errorReply reply,endpoint)] = ledger :=
  ledger.record_nil

theorem update_eq_unknown {ledger : Ledger} {id : Id} {f : Standing → Standing}
    (hf : f .unknown = .unknown) (id' : Id) (h : ledger id = .unknown) :
    Function.update ledger id' (f (ledger id')) id = .unknown := by
  by_cases he : id = id'
  · rw [← he,Function.update_self,h,hf]
  · rw [Function.update_of_ne he,h]

/-- Only the reply to its insert makes an id known. -/
theorem see_eq_unknown {ledger : Ledger} {call : Call Endpoint} {id : Id}
    (messages : List (Message × Endpoint)) (hid : call.insertedId ≠ some id)
    (h : ledger id = .unknown) : ledger.see call messages id = .unknown := by
  have hack : ledger.acknowledge call id = .unknown := by
    cases call with
    | orderInsert o endpoint =>
      exact (Function.update_of_ne (fun he => hid (congrArg some he.symm)) _ _).trans h
    | orderAmend a endpoint => exact update_eq_unknown rfl a.id h
    | orderCancel k endpoint => exact update_eq_unknown rfl k.id h
  refine Standing.credit_eq_unknown_iff.mpr ?_
  split_ifs
  · exact hack
  · exact h

end Ledger

/-- The ledger balances against a list of orders. -/
structure Accounted (ledger : Ledger) (orders : List OrderInsertData) : Prop where
  booked : ∀ o ∈ orders, ∃ account, ledger o.id = .live account ∧
    account.isBuySide = o.isBuySide ∧ account.price = o.price
  distinct : (orders.map (fun o => o.id)).Nodup
  balanced : ∀ id account, ledger id = .live account →
    account.volume.toNat = account.traded + volumeOf id orders

namespace Accounted
variable {ledger : Ledger} {orders rest : List OrderInsertData} {o : OrderInsertData}

theorem perm {orders' : List OrderInsertData} (h : Accounted ledger orders)
    (hp : orders.Perm orders') : Accounted ledger orders' where
  booked q hq := h.booked q (hp.mem_iff.mpr hq)
  distinct := (hp.map (fun q => q.id)).nodup_iff.mp h.distinct
  balanced id account hl := by
    rw [h.balanced id account hl,volumeOf_perm id hp]

theorem ne_of_mem (h : Accounted ledger (o :: rest)) {q : OrderInsertData} (hq : q ∈ rest) :
    q.id ≠ o.id := by
  have hd := h.distinct
  rw [List.map_cons,List.nodup_cons] at hd
  exact fun he => hd.1 (he ▸ List.mem_map_of_mem hq)

/-- An order leaves and its id is no longer live. -/
theorem remove (h : Accounted ledger (o :: rest)) :
    Accounted (Function.update ledger o.id .cancelled) rest where
  booked q hq := by
    rw [Function.update_of_ne (h.ne_of_mem hq)]
    exact h.booked q (List.mem_cons_of_mem o hq)
  distinct := (List.nodup_cons.mp h.distinct).2
  balanced id account hl := by
    by_cases hid : id = o.id
    · rw [hid,Function.update_self] at hl
      cases hl
    · rw [Function.update_of_ne hid] at hl
      rw [h.balanced id account hl,volumeOf_cons,if_neg (Ne.symm hid),Nat.zero_add]

/-- An order comes to rest and its id is opened. -/
theorem add (h : Accounted ledger rest) (ho : ∀ q ∈ rest, q.id ≠ o.id) :
    Accounted (Function.update ledger o.id (.live (Account.ofOrder o))) (o :: rest) where
  booked q hq := by
    rcases List.mem_cons.mp hq with rfl | hq
    · exact ⟨_,Function.update_self _ _ _,rfl,rfl⟩
    · rw [Function.update_of_ne (ho q hq)]
      exact h.booked q hq
  distinct := by
    rw [List.map_cons,List.nodup_cons]
    refine ⟨fun hm => ?_,h.distinct⟩
    obtain ⟨q,hq,he⟩ := List.mem_map.mp hm
    exact ho q hq he
  balanced id account hl := by
    by_cases hid : id = o.id
    · rw [hid,Function.update_self] at hl
      cases hl
      simp [hid,Account.ofOrder,volumeOf_eq_zero o.id ho]
    · rw [Function.update_of_ne hid] at hl
      rw [h.balanced id account hl,volumeOf_cons,if_neg (Ne.symm hid),Nat.zero_add]

theorem close (h : Accounted ledger (o :: rest)) {id : Id} (hid : o.id = id) :
    Accounted (Function.update ledger id (ledger id).closed) rest := by
  obtain ⟨account,hl,_⟩ := h.booked o List.mem_cons_self
  rw [← hid,hl]
  exact h.remove

theorem amend_zero (h : Accounted ledger (o :: rest)) {id : Id} (hid : o.id = id)
    (newPrice : PriceType) :
    Accounted (Function.update ledger id ((ledger id).amended newPrice 0)) rest := by
  obtain ⟨account,hl,_⟩ := h.booked o List.mem_cons_self
  rw [← hid,hl]
  exact h.remove

/-- An order is replaced by its amended version. -/
theorem amend (h : Accounted ledger (o :: rest)) {id : Id} (hid : o.id = id)
    (newPrice : PriceType) {newVolume : VolumeType} (hv : newVolume ≠ 0) :
    Accounted (Function.update ledger id ((ledger id).amended newPrice newVolume))
      ({ o with price := newPrice, volume := newVolume } :: rest) := by
  obtain ⟨account,hl,hside,_⟩ := h.booked o List.mem_cons_self
  have hadd := h.remove.add (o := { o with price := newPrice, volume := newVolume })
    (fun q hq => h.ne_of_mem hq)
  rw [Function.update_idem] at hadd
  rw [← hid,hl,Standing.amended,if_neg hv,hside]
  exact hadd

/-- Trades credit what they take from the orders. -/
theorem record {orders' : List OrderInsertData} {trades : List Trade} (h : Accounted ledger orders)
    (hbooked : ∀ o ∈ orders', ∃ account, ledger o.id = .live account ∧
      account.isBuySide = o.isBuySide ∧ account.price = o.price)
    (hids : (orders'.map (fun o => o.id)).Sublist (orders.map (fun o => o.id)))
    (hvolume : ∀ id, volumeOf id orders' + tradedVolumeOf id trades = volumeOf id orders) :
    Accounted (ledger.record trades) orders' where
  booked o ho := by
    obtain ⟨account,hl,hside,hprice⟩ := hbooked o ho
    exact ⟨_,Standing.credit_eq_live_iff.mpr ⟨account,hl,rfl⟩,hside,hprice⟩
  distinct := h.distinct.sublist hids
  balanced id account hl := by
    obtain ⟨account',hl',rfl⟩ := Standing.credit_eq_live_iff.mp hl
    have hb := h.balanced id account' hl'
    have hv := hvolume id
    change account'.volume.toNat = account'.traded + tradedVolumeOf id trades + volumeOf id orders'
    omega

end Accounted
end Moboware
