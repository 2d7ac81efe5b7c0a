import Mathlib.Data.List.TakeWhile
import Moboware.MatchingEngine.OrderData

/-! # JSON values

The values a request is read from, with the accessors of the JSON library: each of
them returns the member's value or throws.
-/
namespace Moboware

/-- An integer has the first kind it fits in; a double is kept as its bits. -/
inductive JsonValue
  | null
  | bool (b : Bool)
  | int64 (i : Int64)
  | uint64 (u : UInt64)
  | double (bits : UInt64)
  | string (s : String)
  | array (elements : List JsonValue)
  | object (members : List (String × JsonValue))

inductive Exception
  | notObject
  | outOfRange (key : String)
  | notString
  | notInt64
  | notBool
  | incomplete
  deriving DecidableEq

/-- The text up to the first NUL, which is what a `const char*` carries on. -/
def cStr (s : String) : String := String.ofList (s.toList.takeWhile (fun c => c.toNat != 0))

def NulFree (s : String) : Prop := ∀ c ∈ s.toList, c.toNat ≠ 0

instance (s : String) : Decidable (NulFree s) := List.decidableBAll _ s.toList

theorem cStr_eq_self_iff {s : String} : cStr s = s ↔ NulFree s := by
  have hiff : cStr s = s ↔ s.toList.takeWhile (fun c => c.toNat != 0) = s.toList := by
    rw [cStr,← String.toList_inj,String.toList_ofList]
  rw [hiff,List.takeWhile_eq_self_iff]
  simp [NulFree]

namespace JsonValue

/-- `value::at`. -/
def valueAt : JsonValue → String → Except Exception JsonValue
  | object members, key =>
    match members.find? (fun m => m.1 == key) with
    | some m => .ok m.2
    | none => .error (.outOfRange key)
  | _, _ => .error .notObject

def asString : JsonValue → Except Exception String
  | string s => .ok s
  | _ => .error .notString

def asInt64 : JsonValue → Except Exception Int64
  | int64 i => .ok i
  | _ => .error .notInt64

def asBool : JsonValue → Except Exception Bool
  | bool b => .ok b
  | _ => .error .notBool

@[simp] theorem asString_eq_ok_iff {value : JsonValue} {s : String} :
    value.asString = .ok s ↔ value = string s := by cases value <;> simp [asString]

@[simp] theorem asInt64_eq_ok_iff {value : JsonValue} {i : Int64} :
    value.asInt64 = .ok i ↔ value = int64 i := by cases value <;> simp [asInt64]

@[simp] theorem asBool_eq_ok_iff {value : JsonValue} {b : Bool} :
    value.asBool = .ok b ↔ value = bool b := by cases value <;> simp [asBool]

end JsonValue
end Moboware
