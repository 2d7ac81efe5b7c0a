import Moboware.OrderRequests.OrderEventProcessor

/-! # What a handed-over order says about the request

A text is carried over as a C string and a signed integer as an unsigned one, so a
field can differ from the member it is read from. The id of an amend is not read
from the request at all.
-/
namespace Moboware
open Library Throwing OrderEventProcessor
variable {Endpoint : Type}

namespace JsonValue
variable {data : JsonValue} {key : String}

def NonnegAt (data : JsonValue) (key : String) : Prop :=
  ∀ i, data.valueAt key = .ok (.int64 i) → 0 ≤ i.toInt

/-- The member survives the conversions: no NUL in a text, no negative integer. -/
def PlainAt (data : JsonValue) (key : String) : Prop :=
  (∀ s, data.valueAt key = .ok (.string s) → NulFree s) ∧ data.NonnegAt key

/-- The unsigned field equals the signed member. -/
def IntMember (data : JsonValue) (key : String) (field : UInt64) : Prop :=
  ∃ i, data.valueAt key = .ok (.int64 i) ∧ (field.toNat : ℤ) = i.toInt

theorem toNat_toUInt64_eq_toInt_iff (i : Int64) :
    (i.toUInt64.toNat : ℤ) = i.toInt ↔ 0 ≤ i.toInt := by
  have hnat : i.toUInt64.toNat = i.toBitVec.toNat := rfl
  have hint : i.toInt = i.toBitVec.toInt := rfl
  have hlt := i.toBitVec.isLt
  rw [hnat,hint,BitVec.toInt_eq_toNat_cond]
  split_ifs <;> omega

theorem plainAt_iff_of_string {s : String} (h : data.valueAt key = .ok (.string s)) :
    data.PlainAt key ↔ NulFree s := by
  simp [PlainAt,NonnegAt,h]

theorem nonnegAt_iff_of_int64 {i : Int64} (h : data.valueAt key = .ok (.int64 i)) :
    data.NonnegAt key ↔ 0 ≤ i.toInt := by
  simp [NonnegAt,h]

theorem plainAt_iff_of_int64 {i : Int64} (h : data.valueAt key = .ok (.int64 i)) :
    data.PlainAt key ↔ 0 ≤ i.toInt := by
  simp [PlainAt,NonnegAt,h]

theorem string_cStr_iff {s : String} (h : data.valueAt key = .ok (.string s)) :
    data.valueAt key = .ok (.string (cStr s)) ↔ data.PlainAt key := by
  rw [plainAt_iff_of_string h,← cStr_eq_self_iff,h]
  simp [eq_comm]

theorem intMember_toUInt64_iff {i : Int64} (h : data.valueAt key = .ok (.int64 i)) :
    data.IntMember key i.toUInt64 ↔ data.PlainAt key := by
  rw [plainAt_iff_of_int64 h,← toNat_toUInt64_eq_toInt_iff]
  simp [IntMember,h]

end JsonValue

/-- Every field that has a member of its name equals it. -/
def HandlerCall.Faithful (data : JsonValue) : HandlerCall Endpoint → Prop
  | handleOrderAmend a _ =>
    data.valueAt Fields.account = .ok (.string a.account) ∧
    data.valueAt Fields.instrument = .ok (.string a.instrument) ∧
    data.IntMember Fields.price a.price ∧ data.IntMember Fields.newPrice a.newPrice ∧
    data.IntMember Fields.volume a.volume ∧ data.IntMember Fields.newVolume a.newVolume ∧
    data.valueAt Fields.type = .ok (.string a.type) ∧
    data.valueAt Fields.isBuy = .ok (.bool a.isBuySide) ∧
    data.valueAt Fields.id = .ok (.string a.id) ∧
    data.valueAt Fields.clientId = .ok (.string a.clientId)
  | handleOrderCancel k _ =>
    data.valueAt Fields.instrument = .ok (.string k.instrument) ∧
    data.IntMember Fields.price k.price ∧ data.valueAt Fields.isBuy = .ok (.bool k.isBuySide) ∧
    data.valueAt Fields.id = .ok (.string k.id) ∧
    data.valueAt Fields.clientId = .ok (.string k.clientId)
  | _ => True

def amendKeys : List String :=
  [Fields.account,Fields.instrument,Fields.price,Fields.newPrice,Fields.volume,Fields.newVolume,
    Fields.type,Fields.clientId]

def cancelKeys : List String := [Fields.instrument,Fields.price,Fields.id,Fields.clientId]

/-- Every member survives its conversion, and an amend names the reading of the clock. -/
def CarriesOver (action : String) (data : JsonValue) (now : OrderTime) : Prop :=
  (action = Fields.amend → (∀ key ∈ amendKeys, data.PlainAt key) ∧
    data.valueAt Fields.id = .ok (.string (toIdString now))) ∧
  (action = Fields.cancel → ∀ key ∈ cancelKeys, data.PlainAt key)

section Faithful
variable {data : JsonValue} {now : OrderTime} {endpoint : Endpoint}

theorem amend_faithful_iff (m : AmendMembers data) :
    (HandlerCall.handleOrderAmend (m.order now) endpoint).Faithful data ↔
      (∀ key ∈ amendKeys, data.PlainAt key) ∧
        data.valueAt Fields.id = .ok (.string (toIdString now)) := by
  simp only [HandlerCall.Faithful,AmendMembers.order,InsertMembers.order,
    JsonValue.string_cStr_iff m.account_eq,JsonValue.string_cStr_iff m.instrument_eq,
    JsonValue.string_cStr_iff m.type_eq,JsonValue.string_cStr_iff m.clientId_eq,
    JsonValue.intMember_toUInt64_iff m.price_eq,JsonValue.intMember_toUInt64_iff m.newPrice_eq,
    JsonValue.intMember_toUInt64_iff m.volume_eq,JsonValue.intMember_toUInt64_iff m.newVolume_eq,
    m.isBuy_eq,amendKeys,List.forall_mem_cons]
  grind

theorem cancel_faithful_iff (m : CancelMembers data) :
    (HandlerCall.handleOrderCancel m.order endpoint).Faithful data ↔
      ∀ key ∈ cancelKeys, data.PlainAt key := by
  simp only [HandlerCall.Faithful,CancelMembers.order,JsonValue.string_cStr_iff m.instrument_eq,
    JsonValue.string_cStr_iff m.id_eq,JsonValue.string_cStr_iff m.clientId_eq,
    JsonValue.intMember_toUInt64_iff m.price_eq,m.isBuy_eq,cancelKeys,List.forall_mem_cons]
  grind

end Faithful

section Requests
variable {parser : StreamParser} {now : OrderTime} {endpoint : Endpoint} {root data : JsonValue}
  {action : String} {call : HandlerCall Endpoint}

/-- A call comes from the members its action reads, and is valid. -/
theorem cases_of_mem_dispatch (hcall : call ∈ emitted (dispatch action data now endpoint)) :
    (∃ m : InsertMembers data, action = Fields.insert ∧ (m.order now).validate = true ∧
      call = .handleOrderInsert (m.order now) endpoint) ∨
    (∃ m : CancelMembers data, action = Fields.cancel ∧ m.order.validate = true ∧
      call = .handleOrderCancel m.order endpoint) ∨
    (∃ m : AmendMembers data, action = Fields.amend ∧ (m.order now).validate = true ∧
      call = .handleOrderAmend (m.order now) endpoint) ∨
    (∃ m : BookMembers data, action = Fields.getBook ∧
      call = .getOrderBook (cStr m.instrument) endpoint) := by
  by_cases hinsert : action = Fields.insert
  · subst hinsert
    obtain ⟨m,hm⟩ := mem_emitted_insert.mp hcall
    exact Or.inl ⟨m,rfl,hm⟩
  by_cases hcancel : action = Fields.cancel
  · subst hcancel
    obtain ⟨m,hm⟩ := mem_emitted_cancel.mp hcall
    exact Or.inr (Or.inl ⟨m,rfl,hm⟩)
  by_cases hamend : action = Fields.amend
  · subst hamend
    obtain ⟨m,hm⟩ := mem_emitted_amend.mp hcall
    exact Or.inr (Or.inr (Or.inl ⟨m,rfl,hm⟩))
  by_cases hbook : action = Fields.getBook
  · subst hbook
    obtain ⟨m,hm⟩ := mem_emitted_getBook.mp hcall
    exact Or.inr (Or.inr (Or.inr ⟨m,rfl,hm⟩))
  rw [dispatch_of_unknown hinsert hcancel hamend hbook] at hcall
  exact absurd hcall List.not_mem_nil

/-- Every field of a handed-over amend or cancel equals the member of its name exactly
when the members survive their conversions and, for an amend, the request's id is the
reading of the clock. -/
theorem faithful_iff_carriesOver (hroot : parser.release = .ok root)
    (haction : root.valueAt Fields.action = .ok (.string action))
    (hdata : root.valueAt Fields.data = .ok data)
    (hcall : call ∈ emitted (process parser now endpoint)) :
    call.Faithful data ↔ CarriesOver action data now := by
  have hm := mem_emitted_dispatch hroot haction hdata hcall
  rcases cases_of_mem_dispatch hm with ⟨m,rfl,_,rfl⟩ | ⟨m,rfl,_,rfl⟩ | ⟨m,rfl,_,rfl⟩ | ⟨m,rfl,rfl⟩
  · exact iff_of_true trivial ⟨fun h => absurd h (by decide),fun h => absurd h (by decide)⟩
  · rw [cancel_faithful_iff]
    exact ⟨fun h => ⟨fun he => absurd he (by decide),fun _ => h⟩,fun h => h.2 rfl⟩
  · rw [amend_faithful_iff]
    exact ⟨fun h => ⟨fun _ => h,fun he => absurd he (by decide)⟩,fun h => h.1 rfl⟩
  · exact iff_of_true trivial ⟨fun h => absurd h (by decide),fun h => absurd h (by decide)⟩

end Requests
/-- A cancel request for an ask at 100500000. -/
def cancelData : JsonValue := .object [("Instrument",.string "ABCN"),("Price",.int64 100500000),
  ("IsBuy",.bool false),("Id",.string "309458290485"),("ClientId",.string "1298749274982713")]

theorem faithful_iff_carriesOver_cancel :
    (HandlerCall.handleOrderCancel ⟨"ABCN",100500000,false,"309458290485","1298749274982713"⟩
      () : HandlerCall Unit).Faithful cancelData := by
  refine (@faithful_iff_carriesOver Unit ⟨139,.ok (.object [("Action",.string "Cancel"),
    ("Data",cancelData)])⟩ 1700000000000000000 () _ _ _ _ rfl rfl rfl
    (List.mem_singleton_self _)).mpr ⟨fun h => absurd h (by decide),fun _ => ?_⟩
  simp only [cancelKeys,List.forall_mem_cons]
  exact ⟨(JsonValue.plainAt_iff_of_string rfl).mpr (by decide),
    (JsonValue.plainAt_iff_of_int64 rfl).mpr (by decide),
    (JsonValue.plainAt_iff_of_string rfl).mpr (by decide),
    (JsonValue.plainAt_iff_of_string rfl).mpr (by decide),nofun⟩

/-- An amend request for the order with the id 03495869043. -/
def amendData : JsonValue := .object [("Account",.string "mobo"),("Instrument",.string "ABCN"),
  ("Price",.int64 100500000),("NewPrice",.int64 200500000),("Volume",.int64 55),
  ("NewVolume",.int64 105),("IsBuy",.bool false),("Type",.string "Limit"),
  ("Id",.string "03495869043"),("ClientId",.string "1298749274982713")]

/-- The order is handed over under another id. -/
theorem amendData_unfaithful :
    ∃ call ∈ emitted (process ⟨193,.ok (.object [("Action",.string "Amend"),("Data",amendData)])⟩
      1700000000000000000 ()), ¬ call.Faithful amendData := by
  refine ⟨_,List.mem_singleton_self _,?_⟩
  rintro ⟨_,_,_,_,_,_,_,_,hid,_⟩
  have hclock : "03495869043" = toIdString 1700000000000000000 :=
    JsonValue.string.inj (Except.ok.inj hid)
  exact absurd hclock (by decide)

/-- The prices and volumes of a handed-over order, with the members they are read from. -/
def HandlerCall.amounts : HandlerCall Endpoint → List (String × UInt64)
  | handleOrderInsert o _ => [(Fields.price,o.price),(Fields.volume,o.volume)]
  | handleOrderAmend a _ => [(Fields.price,a.price),(Fields.newPrice,a.newPrice),
      (Fields.volume,a.volume),(Fields.newVolume,a.newVolume)]
  | handleOrderCancel k _ => [(Fields.price,k.price)]
  | getOrderBook _ _ => []

/-- Every amount was requested as a strictly positive integer, and equals it. -/
def HandlerCall.Sound (data : JsonValue) (call : HandlerCall Endpoint) : Prop :=
  ∀ amount ∈ call.amounts, ∃ i, data.valueAt amount.1 = .ok (.int64 i) ∧ 0 < i.toInt ∧
    (amount.2.toNat : ℤ) = i.toInt

def amountKeys (action : String) : List String :=
  if action = Fields.insert then [Fields.price,Fields.volume]
  else if action = Fields.amend then
    [Fields.price,Fields.newPrice,Fields.volume,Fields.newVolume]
  else if action = Fields.cancel then [Fields.price] else []

section Sound
variable {data : JsonValue} {key : String}

theorem sound_amount_iff {i : Int64} (h : data.valueAt key = .ok (.int64 i))
    (hv : 0 < i.toUInt64) : (∃ j, data.valueAt key = .ok (.int64 j) ∧ 0 < j.toInt ∧
      (i.toUInt64.toNat : ℤ) = j.toInt) ↔ data.NonnegAt key := by
  rw [JsonValue.nonnegAt_iff_of_int64 h]
  have hpos : 0 < i.toUInt64.toNat := hv
  constructor
  · rintro ⟨j,hj,hlt,_⟩
    rw [h] at hj
    cases hj
    omega
  · intro hi
    have he := (JsonValue.toNat_toUInt64_eq_toInt_iff i).mpr hi
    exact ⟨i,h,by omega,he⟩

theorem positive_of_validate {o : OrderDataBase} (h : o.validate = true) :
    0 < o.price ∧ 0 < o.volume := by
  simp only [OrderDataBase.validate,Bool.and_eq_true,decide_eq_true_eq] at h
  exact ⟨h.1.1.1.1.1.1.1,h.1.1.1.1.1.1.2⟩

theorem positive_of_amend_validate {a : OrderAmendData} (h : a.validate = true) :
    (0 < a.price ∧ 0 < a.volume) ∧ 0 < a.newPrice ∧ 0 < a.newVolume := by
  simp only [OrderAmendData.validate,Bool.and_eq_true,decide_eq_true_eq] at h
  exact ⟨positive_of_validate h.1.1,h.1.2,h.2⟩

theorem positive_of_cancel_validate {k : OrderCancelData} (h : k.validate = true) : 0 < k.price := by
  simp only [OrderCancelData.validate,Bool.and_eq_true,decide_eq_true_eq] at h
  exact h.1.1.1.2

end Sound

/-- The prices and volumes of a handed-over order are sound exactly when none of them
was requested as a negative integer. -/
theorem sound_iff_nonneg {parser : StreamParser} {now : OrderTime} {endpoint : Endpoint}
    {root data : JsonValue} {action : String} {call : HandlerCall Endpoint}
    (hroot : parser.release = .ok root)
    (haction : root.valueAt Fields.action = .ok (.string action))
    (hdata : root.valueAt Fields.data = .ok data)
    (hcall : call ∈ emitted (process parser now endpoint)) :
    call.Sound data ↔ ∀ key ∈ amountKeys action, data.NonnegAt key := by
  have hm := mem_emitted_dispatch hroot haction hdata hcall
  rcases cases_of_mem_dispatch hm with ⟨m,rfl,hv,rfl⟩ | ⟨m,rfl,hv,rfl⟩ | ⟨m,rfl,hv,rfl⟩ | ⟨m,rfl,rfl⟩
  · obtain ⟨hp,hv⟩ := positive_of_validate hv
    simp only [HandlerCall.Sound,HandlerCall.amounts,InsertMembers.order,List.forall_mem_cons,
      sound_amount_iff m.price_eq hp,sound_amount_iff m.volume_eq hv,amountKeys,↓reduceIte]
    simp
  · have hp := positive_of_cancel_validate hv
    simp only [HandlerCall.Sound,HandlerCall.amounts,CancelMembers.order,List.forall_mem_cons,
      sound_amount_iff m.price_eq hp]
    rw [amountKeys,if_neg (by decide),if_neg (by decide),if_pos rfl]
    simp
  · obtain ⟨⟨hp,hv⟩,hnp,hnv⟩ := positive_of_amend_validate hv
    simp only [HandlerCall.Sound,HandlerCall.amounts,AmendMembers.order,InsertMembers.order,
      List.forall_mem_cons,sound_amount_iff m.price_eq hp,sound_amount_iff m.newPrice_eq hnp,
      sound_amount_iff m.volume_eq hv,sound_amount_iff m.newVolume_eq hnv]
    rw [amountKeys,if_neg (by decide),if_pos rfl]
    simp
  · exact iff_of_true nofun nofun

/-- An insert request for 55 at a price. -/
def insertData (price : Int64) : JsonValue := .object [("Account",.string "mobo"),
  ("Instrument",.string "ABCN"),("Price",.int64 price),("Volume",.int64 55),("IsBuy",.bool true),
  ("Type",.string "Limit"),("ClientId",.string "1298749274982713")]

theorem sound_iff_nonneg_insert :
    ∃ call ∈ emitted (process ⟨151,.ok (.object [("Action",.string "Insert"),
      ("Data",insertData 100500000)])⟩ 1700000000000000000 ()), call.Sound (insertData 100500000) := by
  have hkeys : ∀ key ∈ [Fields.price,Fields.volume], (insertData 100500000).NonnegAt key := by
    simp only [List.forall_mem_cons]
    exact ⟨(JsonValue.nonnegAt_iff_of_int64 rfl).mpr (by decide),
      (JsonValue.nonnegAt_iff_of_int64 rfl).mpr (by decide),nofun⟩
  exact ⟨_,List.mem_singleton_self _,(@sound_iff_nonneg Unit ⟨151,.ok (.object
    [("Action",.string "Insert"),("Data",insertData 100500000)])⟩ 1700000000000000000 () _ _ _ _
    rfl rfl rfl (List.mem_singleton_self _)).mpr hkeys⟩

/-- A bid at -1 is handed over at the highest price there is. -/
theorem insertData_wrapped :
    ∃ o, HandlerCall.handleOrderInsert o () ∈ emitted (process ⟨144,.ok (.object
        [("Action",.string "Insert"),("Data",insertData (-1))])⟩ 1700000000000000000 ()) ∧
      o.price = 18446744073709551615 ∧
      ¬ (HandlerCall.handleOrderInsert o ()).Sound (insertData (-1)) := by
  refine ⟨_,List.mem_singleton_self _,rfl,fun h => ?_⟩
  obtain ⟨i,hi,hlt,_⟩ := h _ List.mem_cons_self
  cases hi
  exact absurd hlt (by decide)

end Moboware
