import Mathlib.Data.List.Nodup
import Moboware.OrderRequests.MatchingEngineModule
import Moboware.OrderRequests.RequestFidelity

/-! # The ids of inserted orders

The id of an order is the decimal reading of the clock at which its request is
decoded. Ids are as distinct as the readings are.
-/
namespace Moboware
open Library Throwing OrderEventProcessor
variable {Endpoint : Type}

theorem toDigits_injective : Function.Injective (Nat.toDigits 10) :=
  Function.LeftInverse.injective (g := fun digits => Nat.ofDigitChars 10 digits 0)
    (fun _ => Nat.ofDigitChars_toDigits (by decide) (by decide))

theorem toList_repr_negSucc (n : ℕ) :
    (Int.repr (Int.negSucc n)).toList = '-' :: Nat.toDigits 10 (n + 1) := by
  simp [Int.repr]

theorem minus_not_mem_toDigits (n : ℕ) : '-' ∉ Nat.toDigits 10 n :=
  fun h => absurd (Nat.isDigit_of_mem_toDigits (by decide) (by decide) h) (by decide)

/-- Only a negative reading has a sign in front of its digits. -/
theorem toIdString_injective : Function.Injective toIdString := by
  intro now now' h
  apply Int64.toInt_inj.mp
  have hlist : (Int.repr now.toInt).toList = (Int.repr now'.toInt).toList :=
    congrArg String.toList h
  cases ht : now.toInt with
  | ofNat m =>
    rw [ht] at hlist
    cases ht' : now'.toInt with
    | ofNat n =>
      rw [ht'] at hlist
      change m.repr.toList = n.repr.toList at hlist
      rw [Nat.toList_repr,Nat.toList_repr] at hlist
      rw [toDigits_injective hlist]
    | negSucc n =>
      rw [ht',toList_repr_negSucc] at hlist
      change m.repr.toList = _ at hlist
      rw [Nat.toList_repr] at hlist
      exact absurd (hlist ▸ List.mem_cons_self) (minus_not_mem_toDigits m)
  | negSucc m =>
    rw [ht,toList_repr_negSucc] at hlist
    cases ht' : now'.toInt with
    | ofNat n =>
      rw [ht'] at hlist
      change _ = n.repr.toList at hlist
      rw [Nat.toList_repr] at hlist
      exact absurd (hlist ▸ List.mem_cons_self) (minus_not_mem_toDigits n)
    | negSucc n =>
      rw [ht',toList_repr_negSucc] at hlist
      rw [Nat.succ_injective (toDigits_injective (List.cons_injective hlist))]

def HandlerCall.insertedOrder? : HandlerCall Endpoint → Option OrderInsertData
  | handleOrderInsert orderInsert _ => some orderInsert
  | _ => none

namespace WebSocketData

/-- The orders of a message that are handed over as inserts. -/
def insertedOrders (received : WebSocketData Endpoint) : List OrderInsertData :=
  (emitted (process received.parser received.now received.endpoint)).filterMap
    HandlerCall.insertedOrder?

/-- An insert request that is decoded and passes its validation. -/
def ValidInsert (received : WebSocketData Endpoint) : Prop :=
  ∃ o, .handleOrderInsert o received.endpoint ∈
    emitted (process received.parser received.now received.endpoint)

theorem ids_of_validInsert {received : WebSocketData Endpoint} (h : received.ValidInsert) :
    received.insertedOrders.map (fun o => o.id) = [toIdString received.now] := by
  obtain ⟨o,ho⟩ := h
  have hsingle : emitted (process received.parser received.now received.endpoint) =
      [.handleOrderInsert o received.endpoint] := by
    have hlength :
        (emitted (process received.parser received.now received.endpoint)).length ≤ 1 :=
      length_emitted_process
    obtain ⟨call,hcall⟩ := List.length_eq_one_iff.mp
      (Nat.le_antisymm hlength (List.length_pos_of_mem ho))
    rw [hcall,List.mem_singleton] at ho
    rw [hcall,ho]
  obtain ⟨_,root,_,action,_,data,_,hm⟩ := mem_emitted_process.mp ho
  rcases cases_of_mem_dispatch hm with ⟨m,_,_,he⟩ | ⟨m,_,_,he⟩ | ⟨m,_,_,he⟩ | ⟨m,_,he⟩
  · cases he
    rw [insertedOrders,hsingle]
    rfl
  · cases he
  · cases he
  · cases he

end WebSocketData

/-- The orders handed over for valid insert requests have pairwise distinct ids exactly
when the clock reads differently for each of them. -/
theorem ids_nodup_iff_readings_nodup (requests : List (WebSocketData Endpoint))
    (hvalid : ∀ request ∈ requests, request.ValidInsert) :
    ((requests.flatMap WebSocketData.insertedOrders).map (fun o => o.id)).Nodup ↔
      (requests.map (fun request => request.now)).Nodup := by
  have hids : (requests.flatMap WebSocketData.insertedOrders).map (fun o => o.id) =
      (requests.map (fun request => request.now)).map toIdString := by
    induction requests with
    | nil => rfl
    | cons request requests ih =>
      obtain ⟨hr,hrs⟩ := List.forall_mem_cons.mp hvalid
      rw [List.flatMap_cons,List.map_append,WebSocketData.ids_of_validInsert hr,ih hrs]
      rfl
  rw [hids]
  exact List.nodup_map_iff toIdString_injective

/-- An insert request that is decoded at a reading of the clock. -/
def insertAt (now : OrderTime) : WebSocketData Unit :=
  ⟨⟨151,.ok (.object [("Action",.string "Insert"),("Data",insertData 100500000)])⟩,now,()⟩

theorem ids_nodup_iff_readings_nodup_ticks :
    (([insertAt 1700000000000000000,insertAt 1700000000000000001,insertAt 1699999999999999999].flatMap
      WebSocketData.insertedOrders).map (fun o => o.id)).Nodup := by
  refine (ids_nodup_iff_readings_nodup _ ?_).mpr (by decide)
  simp only [List.forall_mem_cons,List.not_mem_nil]
  exact ⟨⟨_,List.mem_singleton_self _⟩,⟨_,List.mem_singleton_self _⟩,⟨_,List.mem_singleton_self _⟩,nofun⟩

/-- Two inserts at one reading of the clock get one id. -/
theorem sameReading_sameId :
    (∀ request ∈ [insertAt 1700000000000000000,insertAt 1700000000000000000], request.ValidInsert) ∧
    ¬ (([insertAt 1700000000000000000,insertAt 1700000000000000000].flatMap
      WebSocketData.insertedOrders).map (fun o => o.id)).Nodup := by
  constructor
  · simp only [List.forall_mem_cons,List.not_mem_nil]
    exact ⟨⟨_,List.mem_singleton_self _⟩,⟨_,List.mem_singleton_self _⟩,nofun⟩
  · exact fun h => (List.nodup_cons.mp h).1 List.mem_cons_self

end Moboware
