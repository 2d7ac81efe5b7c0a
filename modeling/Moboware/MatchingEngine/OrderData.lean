import Mathlib.Init

/-! # Order data

The records of `order_data.h`. Prices and volumes are 64-bit words; clock
readings and durations are the signed counts of their chrono types.
-/
namespace Moboware

abbrev PriceType := UInt64
abbrev VolumeType := UInt64
abbrev OrderTime := Int64
abbrev Id := String
abbrev ClientId := String

structure OrderDataBase where
  account : String := ""
  instrument : String := ""
  price : PriceType := 0
  volume : VolumeType := 0
  type : String := ""
  isBuySide : Bool := true
  orderTime : OrderTime := 0
  orderDuration : Int64 := 0
  id : Id := ""
  clientId : ClientId := ""
  deriving DecidableEq

/-- `OrderInsertData` adds no field to its base. -/
abbrev OrderInsertData := OrderDataBase

/-- A limit order as the tests of the engine place it. -/
def limitOrder (isBuySide : Bool) (id : Id) (price : PriceType) (volume : VolumeType) :
    OrderInsertData :=
  { account := "mobo", instrument := "ABCD", price, volume, type := "Limit", isBuySide,
    orderTime := 1, id, clientId := "clientId=1" }

structure OrderAmendData extends OrderDataBase where
  newPrice : PriceType := 0
  newVolume : VolumeType := 0
  deriving DecidableEq

structure OrderCancelData where
  instrument : String := ""
  price : PriceType := 0
  isBuySide : Bool := true
  id : Id := ""
  clientId : ClientId := ""
  deriving DecidableEq

structure OrderReply where
  id : Id
  clientId : ClientId
  deriving DecidableEq

structure Trade where
  account : String
  tradedPrice : PriceType
  tradedVolume : VolumeType
  id : Id
  clientId : ClientId
  deriving DecidableEq

structure ErrorReply where
  clientId : ClientId
  errorMessage : String
  deriving DecidableEq

end Moboware
