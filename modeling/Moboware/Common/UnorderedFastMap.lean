import Mathlib.Data.List.Basic
import Moboware.Library.Machine

/-! # The unordered fast map

`unordered_fast_map`: keys and values in two vectors side by side, searched from the
front. An iterator is a position in each of them.
-/
namespace Moboware
open Library

structure UnorderedFastMap (TKey TValue : Type*) where
  mKeys : List TKey := []
  mValues : List TValue := []
  deriving DecidableEq

namespace UnorderedFastMap
variable {TKey TValue : Type*} [DecidableEq TKey]

structure Iterator where
  keyIter : ℕ
  valueIter : ℕ
  deriving DecidableEq

namespace Iterator

def first? (iter : Iterator) (m : UnorderedFastMap TKey TValue) : Option TKey :=
  m.mKeys[iter.keyIter]?

def second? (iter : Iterator) (m : UnorderedFastMap TKey TValue) : Option TValue :=
  m.mValues[iter.valueIter]?

end Iterator

/-- `end()`. -/
def endIter (m : UnorderedFastMap TKey TValue) : Iterator := ⟨m.mKeys.length,m.mValues.length⟩

def size (m : UnorderedFastMap TKey TValue) : ℕ := m.mKeys.length

/-- The key goes to the end without a search, so its position never is the new end. -/
def insert (m : UnorderedFastMap TKey TValue) (key : TKey) (value : TValue) :
    UnorderedFastMap TKey TValue × Iterator × Bool :=
  let iter1 := m.mKeys.length
  let keys := m.mKeys ++ [key]
  if iter1 ≠ keys.length then
    let iter2 := m.mValues.length
    (⟨keys,m.mValues ++ [value]⟩,⟨iter1,iter2⟩,true)
  else (⟨keys,m.mValues⟩,⟨keys.length,m.mValues.length⟩,false)

/-- Both iterators advance together. -/
def find (m : UnorderedFastMap TKey TValue) (key : TKey) : Iterator :=
  match m.mKeys.findIdx? (fun k => decide (k = key)) with
  | some i => ⟨i,i⟩
  | none => m.endIter

/-- The overloads of `find`. -/
inductive FindOverload
  | nonConst
  | const
  deriving DecidableEq

/-- A call goes to the overload whose object parameter is as const as the object. -/
def FindOverload.resolve (isConst : Bool) : FindOverload := if isConst then .const else .nonConst

/-- A call of an overload with the depth of the stack as fuel. The body of the const one is
the call `find(key)` on `*this`, and that is const there. -/
def callFind (m : UnorderedFastMap TKey TValue) (key : TKey) : FindOverload → ℕ → Option Iterator
  | .nonConst, _ => some (m.find key)
  | .const, 0 => none
  | .const, fuel + 1 => m.callFind key (.resolve true) fuel

def erase (m : UnorderedFastMap TKey TValue) (key : TKey) :
    UnorderedFastMap TKey TValue × Iterator :=
  match m.mKeys.findIdx? (fun k => decide (k = key)) with
  | some i => (⟨m.mKeys.eraseIdx i,m.mValues.eraseIdx i⟩,⟨i,i⟩)
  | none => (m,m.endIter)

/-- By the key the iterator points at; the end iterator points at none. -/
def eraseIter (m : UnorderedFastMap TKey TValue) (iter : Iterator) :
    UnorderedFastMap TKey TValue × Iterator :=
  match iter.first? m with
  | some key => m.erase key
  | none => (m,m.endIter)

def clear (_ : UnorderedFastMap TKey TValue) : UnorderedFastMap TKey TValue := {}

def valueAt (m : UnorderedFastMap TKey TValue) (key : TKey) : Option TValue :=
  (m.find key).second? m

def entries (m : UnorderedFastMap TKey TValue) : List (TKey × TValue) := m.mKeys.zip m.mValues

inductive Call (TKey TValue : Type*)
  | insert (key : TKey) (value : TValue)
  | erase (key : TKey)
  | eraseIter (position : ℕ)
  | find (key : TKey)
  | clear

/-- The part of the answers that both maps have: `erase` answers a count in one and an
iterator in the other. -/
inductive Outcome (TValue : Type*)
  | inserted (success : Bool)
  | found (value : Option TValue)
  | done
  deriving DecidableEq

def step : Machine (UnorderedFastMap TKey TValue) (Call TKey TValue) (Outcome TValue)
  | m, .insert key value => ((m.insert key value).1,[.inserted (m.insert key value).2.2])
  | m, .erase key => ((m.erase key).1,[.done])
  | m, .eraseIter position => ((m.eraseIter ⟨position,position⟩).1,[.done])
  | m, .find key => (m,[.found (m.valueAt key)])
  | m, .clear => (m.clear,[.done])

end UnorderedFastMap
end Moboware
