import Moboware.Library.Feed

/-! # SAX events

What the JSON reader reports of a text, one event after the other. Every handler of a
value looks at the key in force, so the events of a text are read as pairs of both.
-/
namespace Moboware
open Library

inductive SaxEvent
  | null
  | boolean (value : Bool)
  | numberInteger (value : Int64)
  | numberUnsigned (value : UInt64)
  | numberFloat (text : String)
  | string (value : String)
  | startObject
  | endObject
  | startArray
  | endArray
  | key (value : String)
  | binary
  deriving DecidableEq

/-- The events of a text up to its end or up to the error it is left with. -/
structure SaxText where
  events : List SaxEvent
  parseError : Bool := false

namespace SaxEvent

/-- The events with the key in force at each of them. -/
def keyed : String → List SaxEvent → List (String × SaxEvent)
  | _, [] => []
  | _, key value :: es => keyed value es
  | k, e :: es => (k,e) :: keyed k es

/-- The key in force behind the events. -/
def keyAfter : String → List SaxEvent → String
  | k, [] => k
  | _, key value :: es => keyAfter value es
  | k, _ :: es => keyAfter k es

theorem keyed_cons {e : SaxEvent} (he : ∀ value, e ≠ .key value) (k : String)
    (es : List SaxEvent) : keyed k (e :: es) = (k,e) :: keyed k es := by
  cases e with
  | key value => exact absurd rfl (he value)
  | _ => rfl

theorem keyAfter_cons {e : SaxEvent} (he : ∀ value, e ≠ .key value) (k : String)
    (es : List SaxEvent) : keyAfter k (e :: es) = keyAfter k es := by
  cases e with
  | key value => exact absurd rfl (he value)
  | _ => rfl

/-- The string that an event gives under the key. -/
def stringUnder (key : String) : String × SaxEvent → Option String
  | (k,.string value) => if k = key then some value else none
  | _ => none

def lastUnder (key : String) (ks : List (String × SaxEvent)) : Option String :=
  ks.reverse.findSome? (stringUnder key)

theorem lastUnder_cons (key : String) (e : String × SaxEvent) (ks : List (String × SaxEvent)) :
    lastUnder key (e :: ks) = (lastUnder key ks).or (stringUnder key e) := by
  rw [lastUnder,List.reverse_cons,List.findSome?_append,List.findSome?_singleton]
  rfl

theorem eq_key_or (e : SaxEvent) : (∃ value, e = .key value) ∨ ∀ value, e ≠ .key value := by
  cases e with
  | key value => exact Or.inl ⟨value,rfl⟩
  | _ => exact Or.inr (fun _ => SaxEvent.noConfusion)

theorem keyed_append (k : String) (es fs : List SaxEvent) :
    keyed k (es ++ fs) = keyed k es ++ keyed (keyAfter k es) fs := by
  induction es generalizing k with
  | nil => rfl
  | cons e es ih =>
    rcases e.eq_key_or with ⟨value,rfl⟩ | he
    · exact ih value
    · rw [List.cons_append,keyed_cons he,keyed_cons he,keyAfter_cons he,ih,List.cons_append]

end SaxEvent

/-- `sax_parse`: the events go to the handler until it wants no more, and an error at the
end goes to `parse_error`, which changes nothing and returns false. -/
def saxParse {σ : Type*} (handle : Handler σ SaxEvent) (s : σ) (text : SaxText) : σ × Bool :=
  if (handle.feed s text.events).2 then ((handle.feed s text.events).1,!text.parseError)
  else ((handle.feed s text.events).1,false)

theorem saxParse_fst {σ : Type*} (handle : Handler σ SaxEvent) (s : σ) (text : SaxText) :
    (saxParse handle s text).1 = (handle.feed s text.events).1 := by
  unfold saxParse
  split_ifs <;> rfl

/-- A JSON value that is reported in events. -/
inductive SaxValue
  | null
  | boolean (value : Bool)
  | numberInteger (value : Int64)
  | numberUnsigned (value : UInt64)
  | numberFloat (text : String)
  | string (value : String)
  | array (elements : List SaxValue)
  | object (members : List (String × SaxValue))

namespace SaxValue

mutual
def events : SaxValue → List SaxEvent
  | null => [.null]
  | boolean value => [.boolean value]
  | numberInteger value => [.numberInteger value]
  | numberUnsigned value => [.numberUnsigned value]
  | numberFloat text => [.numberFloat text]
  | string value => [.string value]
  | array elements => .startArray :: elementEvents elements ++ [.endArray]
  | object members => .startObject :: memberEvents members ++ [.endObject]

def elementEvents : List SaxValue → List SaxEvent
  | [] => []
  | v :: vs => events v ++ elementEvents vs

def memberEvents : List (String × SaxValue) → List SaxEvent
  | [] => []
  | (key,v) :: ms => .key key :: events v ++ memberEvents ms
end

end SaxValue
end Moboware
