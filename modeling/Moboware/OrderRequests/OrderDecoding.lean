import Moboware.Library.Throwing
import Moboware.OrderRequests.JsonValue

/-! # Decoding orders

`SetData` and `Validate` of the three kinds of orders. The members that a decoder
reads are a structure over the JSON object: it can be built exactly when the decoder
does not throw, and the decoded order is a function of it.
-/
namespace Moboware
open Library

namespace Fields

def action : String := "Action"
def data : String := "Data"
def insert : String := "Insert"
def cancel : String := "Cancel"
def amend : String := "Amend"
def getBook : String := "GetBook"
def account : String := "Account"
def price : String := "Price"
def newPrice : String := "NewPrice"
def volume : String := "Volume"
def newVolume : String := "NewVolume"
def type : String := "Type"
def isBuy : String := "IsBuy"
def clientId : String := "ClientId"
def id : String := "Id"
def instrument : String := "Instrument"

end Fields

/-- `std::to_string` of the clock's tick count. -/
def toIdString (orderTime : OrderTime) : Id := toString orderTime.toInt

namespace OrderDataBase

def validate (o : OrderDataBase) : Bool :=
  decide (o.price > 0) && decide (o.volume > 0) && decide (o.orderTime > 0) &&
    !o.id.isEmpty && !o.clientId.isEmpty && !o.account.isEmpty && !o.instrument.isEmpty &&
    (o.isBuySide == true || o.isBuySide == false)

/-- `SetData`, with the reading of the clock; the flag is the result of `Validate`. -/
def setData (data : JsonValue) (now : OrderTime) : Except Exception (OrderDataBase × Bool) := do
  let account ← (← data.valueAt Fields.account).asString
  let price ← (← data.valueAt Fields.price).asInt64
  let volume ← (← data.valueAt Fields.volume).asInt64
  let type ← (← data.valueAt Fields.type).asString
  let isBuySide ← (← data.valueAt Fields.isBuy).asBool
  let clientId ← (← data.valueAt Fields.clientId).asString
  let instrument ← (← data.valueAt Fields.instrument).asString
  let order : OrderDataBase :=
    { account := cStr account, price := price.toUInt64, volume := volume.toUInt64,
      type := cStr type, isBuySide, orderTime := now, clientId := cStr clientId,
      instrument := cStr instrument, id := toIdString now }
  return (order,order.validate)

end OrderDataBase

namespace OrderAmendData

def validate (a : OrderAmendData) : Bool :=
  a.toOrderDataBase.validate && decide (a.newPrice > 0) && decide (a.newVolume > 0)

def setData (data : JsonValue) (now : OrderTime) : Except Exception (OrderAmendData × Bool) := do
  let account ← (← data.valueAt Fields.account).asString
  let price ← (← data.valueAt Fields.price).asInt64
  let newPrice ← (← data.valueAt Fields.newPrice).asInt64
  let volume ← (← data.valueAt Fields.volume).asInt64
  let newVolume ← (← data.valueAt Fields.newVolume).asInt64
  let type ← (← data.valueAt Fields.type).asString
  let isBuySide ← (← data.valueAt Fields.isBuy).asBool
  let clientId ← (← data.valueAt Fields.clientId).asString
  let instrument ← (← data.valueAt Fields.instrument).asString
  -- The id is the clock's reading here too; the member `Id` is not read.
  let order : OrderAmendData :=
    { account := cStr account, price := price.toUInt64, newPrice := newPrice.toUInt64,
      volume := volume.toUInt64, newVolume := newVolume.toUInt64, type := cStr type, isBuySide,
      orderTime := now, clientId := cStr clientId, instrument := cStr instrument,
      id := toIdString now }
  return (order,order.validate)

end OrderAmendData

namespace OrderCancelData

def validate (k : OrderCancelData) : Bool :=
  !k.instrument.isEmpty && decide (k.price > 0) && !k.id.isEmpty && !k.clientId.isEmpty &&
    (k.isBuySide == true || k.isBuySide == false)

def setData (data : JsonValue) : Except Exception (OrderCancelData × Bool) := do
  let instrument ← (← data.valueAt Fields.instrument).asString
  let price ← (← data.valueAt Fields.price).asInt64
  let isBuySide ← (← data.valueAt Fields.isBuy).asBool
  let id ← (← data.valueAt Fields.id).asString
  let clientId ← (← data.valueAt Fields.clientId).asString
  let order : OrderCancelData :=
    { instrument := cStr instrument, price := price.toUInt64, isBuySide, id := cStr id,
      clientId := cStr clientId }
  return (order,order.validate)

end OrderCancelData

/-- The members an insert reads. -/
structure InsertMembers (data : JsonValue) where
  account : String
  price : Int64
  volume : Int64
  type : String
  isBuy : Bool
  clientId : String
  instrument : String
  account_eq : data.valueAt Fields.account = .ok (.string account)
  price_eq : data.valueAt Fields.price = .ok (.int64 price)
  volume_eq : data.valueAt Fields.volume = .ok (.int64 volume)
  type_eq : data.valueAt Fields.type = .ok (.string type)
  isBuy_eq : data.valueAt Fields.isBuy = .ok (.bool isBuy)
  clientId_eq : data.valueAt Fields.clientId = .ok (.string clientId)
  instrument_eq : data.valueAt Fields.instrument = .ok (.string instrument)

/-- An amend reads two more. -/
structure AmendMembers (data : JsonValue) extends InsertMembers data where
  newPrice : Int64
  newVolume : Int64
  newPrice_eq : data.valueAt Fields.newPrice = .ok (.int64 newPrice)
  newVolume_eq : data.valueAt Fields.newVolume = .ok (.int64 newVolume)

structure CancelMembers (data : JsonValue) where
  instrument : String
  price : Int64
  isBuy : Bool
  id : String
  clientId : String
  instrument_eq : data.valueAt Fields.instrument = .ok (.string instrument)
  price_eq : data.valueAt Fields.price = .ok (.int64 price)
  isBuy_eq : data.valueAt Fields.isBuy = .ok (.bool isBuy)
  id_eq : data.valueAt Fields.id = .ok (.string id)
  clientId_eq : data.valueAt Fields.clientId = .ok (.string clientId)

structure BookMembers (data : JsonValue) where
  instrument : String
  instrument_eq : data.valueAt Fields.instrument = .ok (.string instrument)

section Members
variable {data : JsonValue}

def InsertMembers.order (m : InsertMembers data) (now : OrderTime) : OrderInsertData :=
  { account := cStr m.account, price := m.price.toUInt64, volume := m.volume.toUInt64,
    type := cStr m.type, isBuySide := m.isBuy, orderTime := now, clientId := cStr m.clientId,
    instrument := cStr m.instrument, id := toIdString now }

def AmendMembers.order (m : AmendMembers data) (now : OrderTime) : OrderAmendData :=
  { m.toInsertMembers.order now with
    newPrice := m.newPrice.toUInt64, newVolume := m.newVolume.toUInt64 }

def CancelMembers.order (m : CancelMembers data) : OrderCancelData :=
  { instrument := cStr m.instrument, price := m.price.toUInt64, isBuySide := m.isBuy,
    id := cStr m.id, clientId := cStr m.clientId }

theorem insertSetData_eq_ok_iff {now : OrderTime} {r : OrderInsertData × Bool} :
    OrderDataBase.setData data now = .ok r ↔
      ∃ m : InsertMembers data, r = (m.order now,(m.order now).validate) := by
  constructor
  · intro h
    simp only [OrderDataBase.setData,bind_eq_ok_iff,JsonValue.asString_eq_ok_iff,
      JsonValue.asInt64_eq_ok_iff,JsonValue.asBool_eq_ok_iff] at h
    obtain ⟨_,h1,account,rfl,_,h2,price,rfl,_,h3,volume,rfl,_,h4,type,rfl,_,h5,isBuy,rfl,_,h6,
      clientId,rfl,_,h7,instrument,rfl,h⟩ := h
    exact ⟨⟨account,price,volume,type,isBuy,clientId,instrument,h1,h2,h3,h4,h5,h6,h7⟩,
      (Except.ok.inj h).symm⟩
  · rintro ⟨m,rfl⟩
    simp only [OrderDataBase.setData,m.account_eq,m.price_eq,m.volume_eq,m.type_eq,m.isBuy_eq,
      m.clientId_eq,m.instrument_eq]
    rfl

theorem amendSetData_eq_ok_iff {now : OrderTime} {r : OrderAmendData × Bool} :
    OrderAmendData.setData data now = .ok r ↔
      ∃ m : AmendMembers data, r = (m.order now,(m.order now).validate) := by
  constructor
  · intro h
    simp only [OrderAmendData.setData,bind_eq_ok_iff,JsonValue.asString_eq_ok_iff,
      JsonValue.asInt64_eq_ok_iff,JsonValue.asBool_eq_ok_iff] at h
    obtain ⟨_,h1,account,rfl,_,h2,price,rfl,_,h8,newPrice,rfl,_,h3,volume,rfl,_,h9,newVolume,rfl,
      _,h4,type,rfl,_,h5,isBuy,rfl,_,h6,clientId,rfl,_,h7,instrument,rfl,h⟩ := h
    exact ⟨⟨⟨account,price,volume,type,isBuy,clientId,instrument,h1,h2,h3,h4,h5,h6,h7⟩,
      newPrice,newVolume,h8,h9⟩,(Except.ok.inj h).symm⟩
  · rintro ⟨m,rfl⟩
    simp only [OrderAmendData.setData,m.account_eq,m.price_eq,m.newPrice_eq,m.volume_eq,
      m.newVolume_eq,m.type_eq,m.isBuy_eq,m.clientId_eq,m.instrument_eq]
    rfl

theorem cancelSetData_eq_ok_iff {r : OrderCancelData × Bool} :
    OrderCancelData.setData data = .ok r ↔
      ∃ m : CancelMembers data, r = (m.order,m.order.validate) := by
  constructor
  · intro h
    simp only [OrderCancelData.setData,bind_eq_ok_iff,JsonValue.asString_eq_ok_iff,
      JsonValue.asInt64_eq_ok_iff,JsonValue.asBool_eq_ok_iff] at h
    obtain ⟨_,h1,instrument,rfl,_,h2,price,rfl,_,h3,isBuy,rfl,_,h4,id,rfl,_,h5,clientId,rfl,h⟩ := h
    exact ⟨⟨instrument,price,isBuy,id,clientId,h1,h2,h3,h4,h5⟩,(Except.ok.inj h).symm⟩
  · rintro ⟨m,rfl⟩
    simp only [OrderCancelData.setData,m.instrument_eq,m.price_eq,m.isBuy_eq,m.id_eq,m.clientId_eq]
    rfl

end Members
end Moboware
