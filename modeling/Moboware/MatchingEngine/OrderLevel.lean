import Moboware.Library.FirstMatch
import Moboware.MatchingEngine.OrderData

/-! # Order levels

`OrderLevel` keeps the orders of one price level in time priority: a deque that
is appended to at the end and traded at the front. An iterator found by id is
the position of the first order that carries the id.
-/
namespace Moboware
open Library

@[ext] structure OrderLevel where
  timeQueue : List OrderInsertData
  deriving DecidableEq

/-- What the trade message of an order reports: the order's own limit price. -/
def OrderDataBase.tradeOf (o : OrderDataBase) (tradedVolume : VolumeType) : Trade :=
  ⟨o.account,o.price,tradedVolume,o.id,o.clientId⟩

namespace OrderLevel

/-- The returned order is the one the iterator of `deque::insert` points at. -/
def insert (level : OrderLevel) (orderData : OrderInsertData) : OrderLevel × Option OrderInsertData :=
  let timeQueue := level.timeQueue ++ [orderData]
  (⟨timeQueue⟩,timeQueue[level.timeQueue.length]?)

/-- The constructor of a level from its first order. -/
def ofOrder (orderData : OrderInsertData) : OrderLevel := ((⟨[]⟩ : OrderLevel).insert orderData).1

def getLastOrder (level : OrderLevel) : Option OrderInsertData := level.timeQueue.getLast?

def isEmpty (level : OrderLevel) : Bool := level.timeQueue.isEmpty

def getTopLevel (level : OrderLevel) : Option OrderInsertData := level.timeQueue.head?

/-- The level after the trade, the traded volume and the trades reported. -/
def tradeTopLevel (level : OrderLevel) (volume : VolumeType) : OrderLevel × VolumeType × List Trade :=
  match level.timeQueue with
  | [] => (level,0,[])
  | topLevel :: rest =>
    let (left,tradedVolume) : VolumeType × VolumeType :=
      if topLevel.volume ≥ volume then (topLevel.volume - volume,volume)
      else if volume > topLevel.volume then (0,topLevel.volume)
      else (topLevel.volume,0)
    let topLevel := { topLevel with volume := left }
    (⟨if topLevel.volume = 0 then rest else topLevel :: rest⟩,tradedVolume,
      [topLevel.tradeOf tradedVolume])

def cancelOrder (level : OrderLevel) (orderId : Id) : OrderLevel × Bool :=
  match firstMatch (fun o => o.id == orderId) level.timeQueue with
  | none => (level,false)
  | some (before,_,after) => (⟨before ++ after⟩,true)

def find (level : OrderLevel) (id : Id) (orderFoundFn : OrderInsertData → OrderInsertData) :
    OrderLevel × Bool :=
  match firstMatch (fun o => id == o.id) level.timeQueue with
  | none => (level,false)
  | some (before,o,after) => (⟨before ++ orderFoundFn o :: after⟩,true)

def changeOrderVolume (level : OrderLevel) (orderId : Id) (newVolume : VolumeType) :
    OrderLevel × Bool := level.find orderId (fun o => { o with volume := newVolume })

/-- The order that is handed to `moveOrderFn`, and the level after its erasure. -/
def moveOrder (level : OrderLevel) (orderId : Id) : Option (OrderInsertData × OrderLevel) :=
  match firstMatch (fun o => orderId == o.id) level.timeQueue with
  | none => none
  | some (before,o,after) => some (o,⟨before ++ after⟩)

@[simp] theorem insert_fst (level : OrderLevel) (o : OrderInsertData) :
    (level.insert o).1 = ⟨level.timeQueue ++ [o]⟩ := rfl

@[simp] theorem insert_snd (level : OrderLevel) (o : OrderInsertData) :
    (level.insert o).2 = some o := by simp [insert]

@[simp] theorem ofOrder_eq (o : OrderInsertData) : ofOrder o = ⟨[o]⟩ := rfl

/-- The front of a queue after a fill: an order without volume leaves. -/
def settle (o : OrderInsertData) (tradedVolume : VolumeType) (rest : List OrderInsertData) :
    List OrderInsertData :=
  if o.volume - tradedVolume = 0 then rest else { o with volume := o.volume - tradedVolume } :: rest

theorem tradeTopLevel_cons (o : OrderInsertData) (rest : List OrderInsertData) (volume : VolumeType) :
    tradeTopLevel ⟨o :: rest⟩ volume =
      (⟨settle o (min o.volume volume) rest⟩,min o.volume volume,
        [o.tradeOf (min o.volume volume)]) := by
  have hmin : min o.volume volume = if o.volume ≤ volume then o.volume else volume := rfl
  by_cases h : volume ≤ o.volume
  · have hm : min o.volume volume = volume := by
      rw [hmin]
      split_ifs with h'
      · exact UInt64.le_antisymm h' h
      · rfl
    simp [tradeTopLevel,settle,hm,h,OrderDataBase.tradeOf]
  · have hlt : o.volume < volume := UInt64.not_le.mp h
    have hm : min o.volume volume = o.volume := by
      rw [hmin,if_pos (UInt64.le_of_lt hlt)]
    simp [tradeTopLevel,settle,hm,h,hlt,OrderDataBase.tradeOf]

theorem settle_length_le (o : OrderInsertData) (v : VolumeType) (rest : List OrderInsertData) :
    (settle o v rest).length ≤ rest.length + 1 := by
  unfold settle
  split_ifs <;> simp

theorem settle_of_full {o : OrderInsertData} {v : VolumeType} (rest : List OrderInsertData)
    (h : v = o.volume) : settle o v rest = rest := by
  rw [settle,h,if_pos (UInt64.sub_self o.volume)]

theorem mem_settle {o p : OrderInsertData} {v : VolumeType} {rest : List OrderInsertData}
    (h : p ∈ settle o v rest) :
    (o.volume - v ≠ 0 ∧ p = { o with volume := o.volume - v }) ∨ p ∈ rest := by
  unfold settle at h
  split_ifs at h with hz
  · exact Or.inr h
  · exact (List.mem_cons.mp h).imp_left (fun he => ⟨hz,he⟩)

end OrderLevel
end Moboware
