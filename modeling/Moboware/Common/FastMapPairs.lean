import Moboware.Common.FastMapAgreement

/-! # The pairs of the fast map

The two vectors of the map read in parallel are a list of pairs in insertion order, over
all calls and with duplicate keys. Lookups through a const map do not return.
-/
namespace Moboware
open Library

namespace UnorderedFastMap
variable {TKey TValue : Type*}

/-- The map that holds the pairs. -/
def ofPairs (pairs : List (TKey × TValue)) : UnorderedFastMap TKey TValue :=
  ⟨pairs.map Prod.fst,pairs.map Prod.snd⟩

theorem endIter_ofPairs (pairs : List (TKey × TValue)) :
    (ofPairs pairs).endIter = ⟨pairs.length,pairs.length⟩ := by simp [ofPairs,endIter]

theorem first?_ofPairs (pairs : List (TKey × TValue)) (i j : ℕ) :
    Iterator.first? ⟨i,j⟩ (ofPairs pairs) = pairs[i]?.map Prod.fst := by
  simp [Iterator.first?,ofPairs]

theorem second?_ofPairs (pairs : List (TKey × TValue)) (i j : ℕ) :
    Iterator.second? ⟨i,j⟩ (ofPairs pairs) = pairs[j]?.map Prod.snd := by
  simp [Iterator.second?,ofPairs]

variable [DecidableEq TKey] {pairs pre post : List (TKey × TValue)} {key : TKey} {value : TValue}

/-- The earliest pair with the key, between the pairs before and after it. -/
def earliest (key : TKey) (pairs : List (TKey × TValue)) :
    Option (List (TKey × TValue) × (TKey × TValue) × List (TKey × TValue)) :=
  firstMatch (fun e => decide (e.1 = key)) pairs

/-- Without the earliest pair with the key. -/
def withoutEarliest (key : TKey) (pairs : List (TKey × TValue)) : List (TKey × TValue) :=
  match earliest key pairs with
  | some (pre,_,post) => pre ++ post
  | none => pairs

/-- The calls on a list of pairs. An iterator is erased by its key. -/
def pairsAfter (pairs : List (TKey × TValue)) : Call TKey TValue → List (TKey × TValue)
  | .insert key value => pairs ++ [(key,value)]
  | .erase key => withoutEarliest key pairs
  | .eraseIter position =>
    match pairs[position]? with
    | some e => withoutEarliest e.1 pairs
    | none => pairs
  | .find _ => pairs
  | .clear => []

theorem around_ofPairs {e : TKey × TValue} (h : earliest key pairs = some (pre,e,post)) :
    e.1 = key ∧ (ofPairs pairs).Around key e.2 pre post := by
  obtain ⟨hl,hk,hpre⟩ := firstMatch_spec h
  obtain ⟨k,value⟩ := e
  have hk' : k = key := of_decide_eq_true hk
  subst hk'
  refine ⟨rfl,?_,?_,fun e he => of_decide_eq_false (hpre e he)⟩
  · rw [ofPairs,hl]
  · rw [ofPairs,hl]

theorem not_mem_ofPairs (h : earliest key pairs = none) : key ∉ (ofPairs pairs).mKeys := by
  intro hk
  obtain ⟨e,he,hek⟩ := List.mem_map.mp hk
  exact absurd hek (of_decide_eq_false (firstMatch_eq_none_iff.mp h e he))

theorem erase_ofPairs (key : TKey) (pairs : List (TKey × TValue)) :
    ((ofPairs pairs).erase key).1 = ofPairs (withoutEarliest key pairs) := by
  rw [withoutEarliest]
  cases h : earliest key pairs with
  | none => rw [(valueAt_of_not_mem (not_mem_ofPairs h)).2]
  | some r =>
    obtain ⟨pre,e,post⟩ := r
    rw [(around_ofPairs h).2.erase]
    rfl

theorem step_ofPairs (pairs : List (TKey × TValue)) (call : Call TKey TValue) :
    (step (ofPairs pairs) call).1 = ofPairs (pairsAfter pairs call) := by
  cases call with
  | insert key value =>
    rw [step,insert_eq,pairsAfter]
    simp [ofPairs]
  | erase key => exact erase_ofPairs key pairs
  | eraseIter position =>
    rw [step,eraseIter,first?_ofPairs,pairsAfter]
    cases pairs[position]? with
    | none => rfl
    | some e => exact erase_ofPairs e.1 pairs
  | find key => rfl
  | clear => rfl

theorem final_ofPairs (pairs : List (TKey × TValue)) (calls : List (Call TKey TValue)) :
    Machine.final step (ofPairs pairs) calls = ofPairs (calls.foldl pairsAfter pairs) := by
  induction calls generalizing pairs with
  | nil => rfl
  | cons call calls ih =>
    rw [Machine.final,List.foldl_cons,step_ofPairs]
    exact ih (pairsAfter pairs call)

/-- Where `find` points: at the earliest pair with the key, or else behind all pairs. -/
def FindsEarliest (m : UnorderedFastMap TKey TValue) (pairs : List (TKey × TValue)) (key : TKey) :
    Prop :=
  match earliest key pairs with
  | some (pre,e,_) => m.find key = ⟨pre.length,pre.length⟩ ∧
      (m.find key).first? m = some e.1 ∧ (m.find key).second? m = some e.2
  | none => m.find key = m.endIter

/-- What `erase` leaves and where it points: the earliest pair with the key is gone, and the
iterator is at the pair that followed it, or behind all pairs if there was none or the key
is absent. -/
def ErasesEarliest (m : UnorderedFastMap TKey TValue) (pairs : List (TKey × TValue)) (key : TKey) :
    Prop :=
  match earliest key pairs with
  | some (pre,_,post) => (m.erase key).1 = ofPairs (pre ++ post) ∧
      (m.erase key).2 = ⟨pre.length,pre.length⟩ ∧
      (m.erase key).2.first? (m.erase key).1 = post.head?.map Prod.fst ∧
      (m.erase key).2.second? (m.erase key).1 = post.head?.map Prod.snd ∧
      (post = [] → (m.erase key).2 = (m.erase key).1.endIter)
  | none => m.erase key = (m,m.endIter)

theorem find_ofPairs (key : TKey) (pairs : List (TKey × TValue)) :
    (ofPairs pairs).FindsEarliest pairs key := by
  rw [FindsEarliest]
  cases h : earliest key pairs with
  | none =>
    have hnone : (ofPairs pairs).mKeys.findIdx? (fun k => decide (k = key)) = none := by
      rw [List.findIdx?_eq_none_iff]
      exact fun k hk => decide_eq_false (fun he => not_mem_ofPairs h (he ▸ hk))
    rw [find,hnone]
  | some r =>
    obtain ⟨pre,e,post⟩ := r
    obtain ⟨hl,_,_⟩ := firstMatch_spec h
    have hfind : (ofPairs pairs).find key = ⟨pre.length,pre.length⟩ := by
      rw [find,(around_ofPairs h).2.findIdx?]
    dsimp only
    rw [hfind,first?_ofPairs,second?_ofPairs,hl]
    simp

theorem erase_earliest_ofPairs (key : TKey) (pairs : List (TKey × TValue)) :
    (ofPairs pairs).ErasesEarliest pairs key := by
  rw [ErasesEarliest]
  cases h : earliest key pairs with
  | none => exact (valueAt_of_not_mem (not_mem_ofPairs h)).2
  | some r =>
    obtain ⟨pre,e,post⟩ := r
    have hiter : ((ofPairs pairs).erase key).2 = ⟨pre.length,pre.length⟩ := by
      rw [erase,(around_ofPairs h).2.findIdx?]
    have hrest : ((ofPairs pairs).erase key).1 = ofPairs (pre ++ post) := (around_ofPairs h).2.erase
    have hnext : (pre ++ post)[pre.length]? = post.head? := by
      rw [List.getElem?_append_right (Nat.le_refl _),Nat.sub_self,List.head?_eq_getElem?]
    dsimp only
    rw [hrest,hiter,first?_ofPairs,second?_ofPairs,endIter_ofPairs,hnext]
    refine ⟨rfl,rfl,rfl,rfl,?_⟩
    rintro rfl
    rw [List.append_nil]

/-- After any calls the vectors are of one length and hold, in parallel, the inserted pairs
in their order without the earliest one for each erase; from there `find` and `erase`
point where they should. -/
theorem fastMap_keeps_pairs (calls : List (Call TKey TValue)) :
    (Machine.final step ({} : UnorderedFastMap TKey TValue) calls).mKeys.length =
      (Machine.final step ({} : UnorderedFastMap TKey TValue) calls).mValues.length ∧
    (Machine.final step ({} : UnorderedFastMap TKey TValue) calls).entries =
      calls.foldl pairsAfter [] ∧
    ∀ key, (Machine.final step ({} : UnorderedFastMap TKey TValue) calls).ErasesEarliest
        (calls.foldl pairsAfter []) key ∧
      (Machine.final step ({} : UnorderedFastMap TKey TValue) calls).FindsEarliest
        (calls.foldl pairsAfter []) key := by
  have hfinal : Machine.final step ({} : UnorderedFastMap TKey TValue) calls =
      ofPairs (calls.foldl pairsAfter []) := final_ofPairs [] calls
  rw [hfinal]
  refine ⟨by simp [ofPairs],?_,fun key => ⟨erase_earliest_ofPairs key _,find_ofPairs key _⟩⟩
  exact (List.zip_of_prod rfl rfl).symm

/-! ### Lookups through a const map -/

theorem callFind_nonConst (m : UnorderedFastMap TKey TValue) (key : TKey) (fuel : ℕ) :
    m.callFind key (.resolve false) fuel = some (m.find key) := by
  cases fuel <;> rfl

/-- The overload for const maps calls itself, to any depth of the stack. -/
theorem callFind_const (m : UnorderedFastMap TKey TValue) (key : TKey) (fuel : ℕ) :
    m.callFind key (.resolve true) fuel = none := by
  induction fuel with
  | zero => rfl
  | succ fuel ih => exact ih

/-- On no content and for no key does the lookup through a const map return what the lookup
through a mutable one does: it does not return at all. -/
theorem const_find_never_agrees (m : UnorderedFastMap TKey TValue) (key : TKey) :
    ¬ ∃ fuel, m.callFind key (.resolve true) fuel = some (m.find key) := by
  rintro ⟨fuel,h⟩
  rw [callFind_const] at h
  exact absurd h (by simp)

theorem const_find_of_empty_map :
    ¬ ∃ fuel, ({} : UnorderedFastMap ℕ ℕ).callFind 1 (.resolve true) fuel = some ⟨0,0⟩ := by
  rintro ⟨fuel,h⟩
  rw [callFind_const] at h
  exact absurd h (by simp)

end UnorderedFastMap
end Moboware
