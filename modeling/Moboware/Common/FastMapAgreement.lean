import Mathlib.Data.Nat.Basic
import Moboware.Common.UnorderedFastMap
import Moboware.Library.FirstMatch
import Moboware.Library.OrderedMap

/-! # The fast map beside an ordered map

Both maps are given the same calls. An insert never looks for its key, so they agree
exactly over the runs in which every inserted key is new.
-/
namespace Moboware
open Library

namespace UnorderedFastMap
variable {TKey TValue : Type*} [DecidableEq TKey]

/-- The key of an insert is not in the map yet. -/
def InsertsNew (m : UnorderedFastMap TKey TValue) : Call TKey TValue → Prop
  | .insert key _ => key ∉ m.mKeys
  | .erase _ => True
  | .eraseIter _ => True
  | .find _ => True
  | .clear => True

/-- The vectors around the first pair with a key. -/
structure Around (m : UnorderedFastMap TKey TValue) (key : TKey) (value : TValue)
    (pre post : List (TKey × TValue)) : Prop where
  keys : m.mKeys = (pre ++ (key,value) :: post).map Prod.fst
  values : m.mValues = (pre ++ (key,value) :: post).map Prod.snd
  pre_ne : ∀ e ∈ pre, e.1 ≠ key

theorem exists_around {m : UnorderedFastMap TKey TValue} {key : TKey}
    (hlen : m.mKeys.length = m.mValues.length) (hkey : key ∈ m.mKeys) :
    ∃ value pre post, m.Around key value pre post := by
  have hfst : m.entries.map Prod.fst = m.mKeys := List.map_fst_zip (Nat.le_of_eq hlen)
  have hsnd : m.entries.map Prod.snd = m.mValues := List.map_snd_zip (Nat.le_of_eq hlen.symm)
  rw [← hfst] at hkey
  obtain ⟨e,he,hek⟩ := List.mem_map.mp hkey
  have hmatch : ∃ e ∈ m.entries, decide (e.1 = key) = true := ⟨e,he,decide_eq_true hek⟩
  obtain ⟨⟨pre,⟨k,value⟩,post⟩,hr⟩ := exists_firstMatch_iff.mpr hmatch
  obtain ⟨hl,hk,hpre⟩ := firstMatch_spec hr
  have hk' : k = key := of_decide_eq_true hk
  subst hk'
  exact ⟨value,pre,post,by rw [← hfst,hl],by rw [← hsnd,hl],
    fun e he => of_decide_eq_false (hpre e he)⟩

namespace Around
variable {m : UnorderedFastMap TKey TValue} {key : TKey} {value : TValue}
  {pre post : List (TKey × TValue)}

theorem findIdx? (h : m.Around key value pre post) :
    m.mKeys.findIdx? (fun k => decide (k = key)) = some pre.length := by
  have hpre : (pre.map Prod.fst).findIdx? (fun k => decide (k = key)) = none := by
    rw [List.findIdx?_eq_none_iff]
    intro k hk
    obtain ⟨e,he,rfl⟩ := List.mem_map.mp hk
    exact decide_eq_false (h.pre_ne e he)
  rw [h.keys,List.map_append,List.map_cons,List.findIdx?_append,hpre,List.findIdx?_cons]
  simp

omit [DecidableEq TKey] in
theorem entries (h : m.Around key value pre post) : m.entries = pre ++ (key,value) :: post :=
  (List.zip_of_prod h.keys.symm h.values.symm).symm

theorem valueAt (h : m.Around key value pre post) : m.valueAt key = some value := by
  rw [UnorderedFastMap.valueAt,find,h.findIdx?]
  change m.mValues[pre.length]? = some value
  rw [h.values,List.map_append,List.map_cons]
  simp

theorem erase (h : m.Around key value pre post) : (m.erase key).1 =
    ⟨(pre ++ post).map Prod.fst,(pre ++ post).map Prod.snd⟩ := by
  rw [UnorderedFastMap.erase,h.findIdx?]
  dsimp only
  rw [h.keys,h.values]
  simp [List.eraseIdx_append_of_length_le]

end Around

/-- A key that is in no pair is found nowhere. -/
theorem valueAt_of_not_mem {m : UnorderedFastMap TKey TValue} {key : TKey}
    (hkey : key ∉ m.mKeys) : m.valueAt key = none ∧ m.erase key = (m,m.endIter) := by
  have hnone : m.mKeys.findIdx? (fun k => decide (k = key)) = none := by
    rw [List.findIdx?_eq_none_iff]
    rintro k hk
    exact decide_eq_false (fun he => hkey (he ▸ hk))
  constructor
  · rw [valueAt,find,hnone]
    exact List.getElem?_eq_none (Nat.le_refl _)
  · rw [erase,hnone]

omit [DecidableEq TKey] in
theorem insert_eq (m : UnorderedFastMap TKey TValue) (key : TKey) (value : TValue) :
    m.insert key value = (⟨m.mKeys ++ [key],m.mValues ++ [value]⟩,
      ⟨m.mKeys.length,m.mValues.length⟩,true) := by
  rw [insert]
  exact if_pos (by simp)

/-- The second pair with a key is inserted all the same. -/
theorem not_nodup_of_insert {m : UnorderedFastMap TKey TValue} {call : Call TKey TValue}
    (hnew : ¬ m.InsertsNew call) : ¬ (step m call).1.mKeys.Nodup := by
  cases call with
  | insert key value =>
    rw [step,insert_eq]
    intro hnodup
    exact hnew (fun hkey => (List.nodup_append.mp hnodup).2.2 key hkey key (by simp) rfl)
  | erase key => exact absurd trivial hnew
  | eraseIter position => exact absurd trivial hnew
  | find key => exact absurd trivial hnew
  | clear => exact absurd trivial hnew

variable {lt : TKey → TKey → Prop}

/-- The vectors are of one length, and the pairs are the entries of the ordered map. -/
structure Matches (m : UnorderedFastMap TKey TValue) (t : OrderedMap TKey TValue lt) : Prop where
  length_eq : m.mKeys.length = m.mValues.length
  perm : m.entries.Perm t.entries

/-- Each key once, as many of them, and the same value at each. -/
def Agree (m : UnorderedFastMap TKey TValue) (t : OrderedMap TKey TValue lt) : Prop :=
  m.mKeys.Nodup ∧ m.size = t.entries.length ∧ ∀ key, m.valueAt key = t.find? key

namespace Matches
variable {m : UnorderedFastMap TKey TValue} {t : OrderedMap TKey TValue lt} {key : TKey}

omit [DecidableEq TKey] in
theorem keys_eq (h : Matches m t) : m.entries.map Prod.fst = m.mKeys :=
  List.map_fst_zip (Nat.le_of_eq h.length_eq)

omit [DecidableEq TKey] in
theorem perm_keys (h : Matches m t) : m.mKeys.Perm (t.entries.map Prod.fst) := by
  rw [← h.keys_eq]
  exact h.perm.map _

theorem mem_iff (h : Matches m t) : key ∈ m.mKeys ↔ t.find? key ≠ none := by
  rw [h.perm_keys.mem_iff,Ne,OrderedMap.find?_eq_none_iff]
  simp

theorem find?_eq_none (h : Matches m t) (hkey : key ∉ m.mKeys) : t.find? key = none :=
  not_not.mp (fun hne => hkey (h.mem_iff.mpr hne))

variable [IsStrictTotalOrder TKey lt]

omit [DecidableEq TKey] in
theorem nodup (h : Matches m t) : m.mKeys.Nodup := by
  refine h.perm_keys.nodup_iff.mpr (List.Pairwise.map _ ?_ t.sorted)
  rintro a b hab heq
  exact irrefl_of lt a.1 (heq ▸ hab)

theorem valueAt_eq (h : Matches m t) (key : TKey) : m.valueAt key = t.find? key := by
  by_cases hkey : key ∈ m.mKeys
  · obtain ⟨value,pre,post,hm⟩ := exists_around h.length_eq hkey
    have hmem : (key,value) ∈ t.entries := by
      rw [← h.perm.mem_iff,hm.entries]
      simp
    rw [hm.valueAt,OrderedMap.find?_eq_some_iff.mpr hmem]
  · have hnone := not_not.mp (fun hne => hkey (h.mem_iff.mpr hne))
    rw [(valueAt_of_not_mem hkey).1,hnone]

theorem agree (h : Matches m t) : Agree m t := by
  refine ⟨h.nodup,?_,h.valueAt_eq⟩
  have hlen := h.perm_keys.length_eq
  rwa [List.length_map] at hlen

theorem erase (h : Matches m t) (key : TKey) : Matches (m.erase key).1 (t.erase key) := by
  by_cases hkey : key ∈ m.mKeys
  · obtain ⟨value,pre,post,hm⟩ := exists_around h.length_eq hkey
    have hfind : t.find? key = some value := (h.valueAt_eq key).symm.trans hm.valueAt
    obtain ⟨pre',post',ht⟩ := OrderedMap.split_of_find? hfind
    have hperm := h.perm
    rw [hm.entries,ht.entries] at hperm
    have hrest : (pre ++ post).Perm (pre' ++ post') :=
      List.Perm.cons_inv (List.perm_middle.symm.trans (hperm.trans List.perm_middle))
    rw [hm.erase]
    refine ⟨by simp,?_⟩
    have hzip : ((pre ++ post).map Prod.fst).zip ((pre ++ post).map Prod.snd) = pre ++ post :=
      (List.zip_of_prod rfl rfl).symm
    rw [ht.erase_entries,UnorderedFastMap.entries,hzip]
    exact hrest
  · rw [(valueAt_of_not_mem hkey).2]
    refine ⟨h.length_eq,?_⟩
    rw [OrderedMap.erase_entries_of_find?_none (h.find?_eq_none hkey)]
    exact h.perm

variable [DecidableRel lt]

/-- A new pair goes to the end of the vectors and to its place in the ordered map. -/
theorem insert (h : Matches m t) (hkey : key ∉ m.mKeys) (value : TValue) :
    Matches (m.insert key value).1 (t.emplace key value).1 ∧
      (m.insert key value).2.2 = (t.emplace key value).2 := by
  obtain ⟨hflag,pre,post,hentries,hsplit⟩ :=
    OrderedMap.emplace_of_find?_none (h.find?_eq_none hkey) value
  rw [insert_eq,hflag]
  refine ⟨⟨?_,?_⟩,rfl⟩
  · simp [h.length_eq]
  · have hzip : (m.mKeys ++ [key]).zip (m.mValues ++ [value]) = m.entries ++ [(key,value)] :=
      List.zip_append h.length_eq
    rw [UnorderedFastMap.entries,hzip,hsplit.entries]
    have hperm := h.perm
    rw [hentries] at hperm
    exact (List.perm_append_singleton _ _).trans ((hperm.cons _).trans List.perm_middle.symm)

end Matches

variable [DecidableRel lt] [IsStrictTotalOrder TKey lt]

/-- The call on `std::map`; an iterator of the fast map stands for the one at its key. -/
def mapStep (m : UnorderedFastMap TKey TValue) (t : OrderedMap TKey TValue lt) :
    Call TKey TValue → OrderedMap TKey TValue lt × List (Outcome TValue)
  | .insert key value => ((t.emplace key value).1,[.inserted (t.emplace key value).2])
  | .erase key => (t.erase key,[.done])
  | .eraseIter position =>
    match Iterator.first? ⟨position,position⟩ m with
    | some key => (t.erase key,[.done])
    | none => (t,[.done])
  | .find key => (t,[.found (t.find? key)])
  | .clear => (OrderedMap.empty,[.done])

def lockstep (lt : TKey → TKey → Prop) [DecidableRel lt] [IsStrictTotalOrder TKey lt] :
    Machine (UnorderedFastMap TKey TValue × OrderedMap TKey TValue lt) (Call TKey TValue)
      (List (Outcome TValue) × List (Outcome TValue)) :=
  fun s call => (((step s.1 call).1,(mapStep s.1 s.2 call).1),
    [((step s.1 call).2,(mapStep s.1 s.2 call).2)])

/-- A call that inserts nothing twice keeps the maps together and answers alike. -/
theorem Matches.step {m : UnorderedFastMap TKey TValue} {t : OrderedMap TKey TValue lt}
    {call : Call TKey TValue} (h : Matches m t) (hnew : m.InsertsNew call) :
    Matches (step m call).1 (mapStep m t call).1 ∧
      (UnorderedFastMap.step m call).2 = (mapStep m t call).2 := by
  cases call with
  | insert key value =>
    obtain ⟨hnext,hflag⟩ := h.insert hnew value
    refine ⟨hnext,?_⟩
    rw [UnorderedFastMap.step,mapStep,hflag]
  | erase key => exact ⟨h.erase key,rfl⟩
  | eraseIter position =>
    rw [UnorderedFastMap.step,mapStep,eraseIter]
    cases Iterator.first? ⟨position,position⟩ m with
    | none => exact ⟨h,rfl⟩
    | some key => exact ⟨h.erase key,rfl⟩
  | find key =>
    refine ⟨h,?_⟩
    rw [UnorderedFastMap.step,mapStep,h.valueAt_eq key]
  | clear => exact ⟨⟨rfl,List.Perm.nil⟩,rfl⟩

/-- A run of the fast map is the first half of the run beside the ordered map. -/
theorem stepsMeet_lockstep {m : UnorderedFastMap TKey TValue} {t : OrderedMap TKey TValue lt}
    {calls : List (Call TKey TValue)} :
    Machine.StepsMeet (lockstep lt) (fun s call => s.1.InsertsNew call) (m,t) calls ↔
      Machine.StepsMeet step InsertsNew m calls :=
  Machine.stepsMeet_part (fun _ _ => rfl)

/-- The maps agree after every call of a run, in their answers and in what they hold,
exactly when every inserted key is new. -/
theorem fastMap_agrees_iff (lt : TKey → TKey → Prop) [DecidableRel lt] [IsStrictTotalOrder TKey lt]
    (calls : List (Call TKey TValue)) :
    (∀ r ∈ Machine.trace (lockstep lt) ({},OrderedMap.empty) calls,
        Agree r.1.1 r.1.2 ∧ ∀ answers ∈ r.2, answers.1 = answers.2) ↔
      Machine.StepsMeet step InsertsNew {} calls := by
  have hempty : Matches ({} : UnorderedFastMap TKey TValue) (OrderedMap.empty : OrderedMap TKey TValue lt) :=
    ⟨rfl,List.Perm.nil⟩
  rw [← stepsMeet_lockstep (t := (OrderedMap.empty : OrderedMap TKey TValue lt))]
  refine Machine.trace_forall_results_iff (D := fun _ _ => True)
    (I := fun s : UnorderedFastMap TKey TValue × OrderedMap TKey TValue lt => Matches s.1 s.2)
    ?_ ?_ hempty (Machine.stepsMeet_of_all (fun _ _ => trivial))
  · intro s call h _ hnew
    obtain ⟨hnext,hanswers⟩ := h.step hnew
    refine ⟨hnext,hnext.agree,?_⟩
    rintro answers hm
    rw [List.mem_singleton.mp hm]
    exact hanswers
  · exact fun s call _ _ hnew hQ => not_nodup_of_insert hnew hQ.1.1

/-- A key that is erased may be inserted again, and the maps agree after each call. -/
theorem fastMap_agrees_iff_reinserted :
    Machine.StepsMeet step InsertsNew ({} : UnorderedFastMap ℕ ℕ)
        [.insert 2 20,.insert 1 10,.erase 2,.insert 2 21,.find 2] ∧
      ∀ r ∈ Machine.trace (lockstep (· < · : ℕ → ℕ → Prop)) ({},OrderedMap.empty)
          [.insert 2 20,.insert 1 10,.erase 2,.insert 2 21,.find 2],
        Agree r.1.1 r.1.2 ∧ ∀ answers ∈ r.2, answers.1 = answers.2 := by
  have hnew : Machine.StepsMeet step InsertsNew ({} : UnorderedFastMap ℕ ℕ)
      [.insert 2 20,.insert 1 10,.erase 2,.insert 2 21,.find 2] := by
    simp [Machine.StepsMeet,InsertsNew,step,insert,erase,List.findIdx?_cons]
  exact ⟨hnew,(fastMap_agrees_iff (· < ·) _).mpr hnew⟩

/-- The same key is inserted twice: the second insert answers true, and the key occurs
twice. -/
def insertedTwice : List (Call ℕ ℕ) := [.insert 1 10,.insert 1 20,.erase 1,.find 1]

/-- The ordered map refuses the second insert and has no key 1 after the erase, which
leaves the fast map with the second value. -/
theorem insertedTwice_disagrees :
    Machine.answers (lockstep (· < · : ℕ → ℕ → Prop)) ({},OrderedMap.empty) insertedTwice =
      [[([.inserted true],[.inserted true])],[([.inserted true],[.inserted false])],
        [([.done],[.done])],[([.found (some 20)],[.found none])]] := by
  decide

end UnorderedFastMap
end Moboware
