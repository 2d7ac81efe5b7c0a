import Mathlib.Data.List.Nodup
import Mathlib.Logic.Function.Basic
import Moboware.Exchanges.Exchange

/-! # Levels read by counting

The strings of the inner arrays are read as a price and a volume in turn, over all arrays of
both sides, whatever the arrays hold. This is the reading of the book on lists; which arrays
are read as the levels they are depends on their lengths alone, as long as no two numbers agree.
-/
namespace Moboware
variable {Double α : Type*}

/-- The strings of the inner arrays, each with the key that its array stands under. -/
def bookFields (arrays : List (String × List String)) : List (String × String) :=
  arrays.flatMap (fun array => array.2.map (fun text => (array.1,text)))

/-- Every inner array holds two strings or none, but the last that holds any may hold one or
three. -/
def Regular : List (String × List String) → Prop
  | [] => True
  | (_,strings) :: arrays =>
    (strings.length = 0 ∨ strings.length = 2) ∧ Regular arrays ∨
    (strings.length = 1 ∨ strings.length = 3) ∧ ∀ array ∈ arrays, array.2 = []

/-- The levels are, in order, those of the arrays under the key: each is the first string and
the second of one array. An array of two strings has its level among them; of the others some
may be left out. -/
inductive DecodedFrom (strtod : String → Double) (key : String) :
    List (String × List String) → List (OrderbookLevel Double) → Prop
  | nil : DecodedFrom strtod key [] []
  | level {arrays levels} (price volume : String) (more : List String) :
      DecodedFrom strtod key arrays levels →
      DecodedFrom strtod key ((key,price :: volume :: more) :: arrays)
        (⟨strtod price,strtod volume⟩ :: levels)
  | skipped {arrays levels} {key' : String} {strings : List String} :
      (key' = key → strings.length ≠ 2) → DecodedFrom strtod key arrays levels →
      DecodedFrom strtod key ((key',strings) :: arrays) levels

/-- A side of the book: the levels that are completed, and the storage behind them. -/
structure SideLevels (Double : Type*) where
  completed : List (OrderbookLevel Double)
  storage : List (OrderbookLevel Double)

/-- A price goes into the next level, and a volume completes it. -/
def SideLevels.write (volume : Bool) (field : Double) (side : SideLevels Double) :
    SideLevels Double :=
  match side.storage with
  | [] => side
  | level :: storage =>
    if volume then ⟨side.completed ++ [{ level with volume := field }],storage⟩
    else ⟨side.completed,{ level with price := field } :: storage⟩

/-- The sides of the book, and whether the next string is a volume. -/
structure Reading (Double : Type*) where
  sides : String → SideLevels Double
  volumeNext : Bool

namespace Reading

def start (bids asks : List (OrderbookLevel Double)) : Reading Double where
  sides key := if key = "asks" then ⟨[],asks⟩ else ⟨[],bids⟩
  volumeNext := false

def read (strtod : String → Double) (r : Reading Double) (field : String × String) :
    Reading Double where
  sides := Function.update r.sides field.1
    ((r.sides field.1).write r.volumeNext (strtod field.2))
  volumeNext := !r.volumeNext

/-- There is storage for `n` more levels on every side. -/
def Room (r : Reading Double) (n : ℕ) : Prop := ∀ key, n ≤ (r.sides key).storage.length

variable {strtod : String → Double} {r : Reading Double}

theorem Room.mono {m n : ℕ} (h : r.Room n) (hm : m ≤ n) : r.Room m :=
  fun key => hm.trans (h key)

theorem sides_read_self (field : String × String) : (r.read strtod field).sides field.1 =
    (r.sides field.1).write r.volumeNext (strtod field.2) := Function.update_self ..

theorem sides_read_of_ne {key : String} {field : String × String} (h : key ≠ field.1) :
    (r.read strtod field).sides key = r.sides key := Function.update_of_ne h _ _

theorem volumeNext_read (field : String × String) :
    (r.read strtod field).volumeNext = !r.volumeNext := rfl

theorem volumeNext_read_read (field field' : String × String) :
    ((r.read strtod field).read strtod field').volumeNext = r.volumeNext := Bool.not_not _

theorem length_storage_write (volume : Bool) (field : Double) (side : SideLevels Double) :
    side.storage.length ≤ (side.write volume field).storage.length + 1 := by
  unfold SideLevels.write
  cases hstorage : side.storage with
  | nil => exact Nat.zero_le _
  | cons level storage => cases volume <;> simp

theorem Room.read {n : ℕ} (h : r.Room (n + 1)) (field : String × String) :
    (r.read strtod field).Room n := by
  intro key
  have hkey := h key
  by_cases heq : key = field.1
  · subst heq
    rw [sides_read_self]
    have hwrite := length_storage_write r.volumeNext (strtod field.2) (r.sides field.1)
    omega
  · rw [sides_read_of_ne heq]
    omega

theorem Room.foldl {fields : List (String × String)} {n : ℕ} (h : r.Room (fields.length + n)) :
    (fields.foldl (Reading.read strtod) r).Room n := by
  induction fields generalizing r with
  | nil => exact h.mono (Nat.le_add_left n 0)
  | cons field fields ih =>
    rw [List.length_cons,Nat.add_right_comm] at h
    exact ih (h.read field)

theorem Room.storage_eq {n : ℕ} (h : r.Room (n + 1)) (key : String) :
    ∃ level storage, (r.sides key).storage = level :: storage :=
  List.exists_cons_of_length_pos (Nat.lt_of_lt_of_le n.succ_pos (h key))

/-! ### Regular arrays -/

theorem completed_read_price (h : r.volumeNext = false) (field : String × String) (key : String) :
    ((r.read strtod field).sides key).completed = (r.sides key).completed := by
  by_cases heq : key = field.1
  · subst heq
    rw [sides_read_self,h,SideLevels.write]
    split <;> rfl
  · rw [sides_read_of_ne heq]

theorem completed_read_pair (h : r.volumeNext = false) (hroom : r.Room 1) (key price volume : String) :
    (((r.read strtod (key,price)).read strtod (key,volume)).sides key).completed =
      (r.sides key).completed ++ [⟨strtod price,strtod volume⟩] := by
  obtain ⟨level,storage,hstorage⟩ := hroom.storage_eq key
  have hprice : (r.read strtod (key,price)).sides key =
      ⟨(r.sides key).completed,{ level with price := strtod price } :: storage⟩ := by
    rw [sides_read_self,h,SideLevels.write,hstorage]
    rfl
  rw [sides_read_self,volumeNext_read,h,hprice]
  rfl

theorem completed_read_pair_of_ne {key key' : String} (hne : key' ≠ key) (price volume : String) :
    (((r.read strtod (key,price)).read strtod (key,volume)).sides key').completed =
      (r.sides key').completed := by
  rw [sides_read_of_ne hne,sides_read_of_ne hne]

end Reading

theorem bookFields_cons (key : String) (strings : List String)
    (arrays : List (String × List String)) :
    bookFields ((key,strings) :: arrays) =
      strings.map (fun text => (key,text)) ++ bookFields arrays := rfl

theorem bookFields_append (arrays arrays' : List (String × List String)) :
    bookFields (arrays ++ arrays') = bookFields arrays ++ bookFields arrays' :=
  List.flatMap_append

theorem bookFields_eq_nil {arrays : List (String × List String)}
    (h : ∀ array ∈ arrays, array.2 = []) : bookFields arrays = [] := by
  unfold bookFields
  rw [List.flatMap_eq_nil_iff]
  intro array harray
  rw [h array harray,List.map_nil]

section Decoding
variable {strtod : String → Double} {key : String}

theorem decodedFrom_nil {arrays : List (String × List String)}
    (h : ∀ array ∈ arrays, array.2 = []) : DecodedFrom strtod key arrays [] := by
  induction arrays with
  | nil => exact .nil
  | cons array arrays ih =>
    refine .skipped (fun _ => ?_) (ih (fun a ha => h a (List.mem_cons_of_mem _ ha)))
    rw [h array List.mem_cons_self]
    exact Nat.zero_ne_add_one 1

/-- What the arrays of a message are read to: the levels of its arrays behind those that were
completed before. -/
def ReadFrom (strtod : String → Double) (key : String) (arrays : List (String × List String))
    (r r' : Reading Double) : Prop :=
  ∃ levels, (r'.sides key).completed = (r.sides key).completed ++ levels ∧
    DecodedFrom strtod key arrays levels

variable {r r' : Reading Double}

theorem ReadFrom.of_completed {arrays : List (String × List String)}
    (h : ∀ array ∈ arrays, array.2 = [])
    (hcompleted : (r'.sides key).completed = (r.sides key).completed) :
    ReadFrom strtod key arrays r r' := by
  refine ⟨[],?_,decodedFrom_nil h⟩
  rw [hcompleted,List.append_nil]

theorem ReadFrom.skip {arrays : List (String × List String)} (h : ReadFrom strtod key arrays r r')
    (key' : String) {strings : List String} (hstrings : strings.length ≠ 2) :
    ReadFrom strtod key ((key',strings) :: arrays) r r' := by
  obtain ⟨levels,hcompleted,hlevels⟩ := h
  exact ⟨levels,hcompleted,hlevels.skipped (fun _ => hstrings)⟩

theorem ReadFrom.pair (hr : r.volumeNext = false) (hroom : r.Room 1) {key' price volume : String}
    {arrays : List (String × List String)}
    (h : ReadFrom strtod key arrays ((r.read strtod (key',price)).read strtod (key',volume)) r')
    (more : List String) :
    ReadFrom strtod key ((key',price :: volume :: more) :: arrays) r r' := by
  obtain ⟨levels,hcompleted,hlevels⟩ := h
  by_cases hkey : key' = key
  · subst hkey
    refine ⟨⟨strtod price,strtod volume⟩ :: levels,?_,hlevels.level price volume more⟩
    rw [hcompleted,Reading.completed_read_pair hr hroom,List.append_assoc,List.singleton_append]
  · refine ⟨levels,?_,hlevels.skipped (fun heq => absurd heq hkey)⟩
    rw [hcompleted,Reading.completed_read_pair_of_ne (Ne.symm hkey)]

/-- The arrays of a regular message are read as the levels they are. -/
theorem readFrom_of_regular {arrays : List (String × List String)} (h : Regular arrays)
    (hr : r.volumeNext = false) (hroom : r.Room (bookFields arrays).length) :
    ReadFrom strtod key arrays r ((bookFields arrays).foldl (Reading.read strtod) r) := by
  induction arrays generalizing r with
  | nil => exact .of_completed (fun _ hmem => absurd hmem List.not_mem_nil) rfl
  | cons array arrays ih =>
    obtain ⟨key',strings⟩ := array
    rw [bookFields_cons,List.length_append,List.length_map] at hroom
    rw [bookFields_cons,List.foldl_append]
    rcases h with ⟨hzero | htwo,hregular⟩ | ⟨hone | hthree,hempty⟩
    · obtain rfl := List.length_eq_zero_iff.mp hzero
      rw [List.length_nil,Nat.zero_add] at hroom
      exact (ih hregular hr hroom).skip key' (Nat.zero_ne_add_one 1)
    · obtain ⟨price,volume,rfl⟩ := List.length_eq_two.mp htwo
      rw [htwo,Nat.add_comm] at hroom
      refine .pair hr (hroom.mono (by omega)) (ih hregular ?_ ?_) []
      · rw [Reading.volumeNext_read_read,hr]
      · exact (hroom.read (key',price)).read (key',volume)
    · -- the price stays in the storage: nothing is read behind it
      obtain ⟨price,rfl⟩ := List.length_eq_one_iff.mp hone
      rw [bookFields_eq_nil hempty]
      exact ReadFrom.skip (.of_completed hempty (Reading.completed_read_price hr _ key)) key'
        (hone.trans_ne (by decide))
    · obtain ⟨price,volume,more,rfl⟩ := List.length_eq_three.mp hthree
      rw [bookFields_eq_nil hempty]
      refine .pair hr (hroom.mono (by omega)) (.of_completed hempty ?_) [more]
      refine Reading.completed_read_price ?_ (key',more) key
      rw [Reading.volumeNext_read_read,hr]

end Decoding

/-! ### The strings that are read as volumes -/

/-- Every second item, from the second on or from the first. -/
def alternate : Bool → List α → List α
  | _, [] => []
  | false, _ :: items => alternate true items
  | true, item :: items => item :: alternate false items

theorem mem_of_mem_alternate {b : Bool} {item : α} {items : List α} (h : item ∈ alternate b items) :
    item ∈ items := by
  induction items generalizing b with
  | nil => exact h
  | cons first items ih =>
    cases b with
    | false => exact List.mem_cons_of_mem _ (ih h)
    | true =>
      rcases List.mem_cons.mp h with rfl | h
      · exact List.mem_cons_self
      · exact List.mem_cons_of_mem _ (ih h)

section Volumes
variable {strtod : String → Double} {r : Reading Double}

theorem completed_read_subset (field : String × String) (key : String) :
    (r.sides key).completed ⊆ ((r.read strtod field).sides key).completed := by
  by_cases heq : key = field.1
  · subst heq
    rw [Reading.sides_read_self,SideLevels.write]
    split
    · exact List.Subset.refl _
    · split_ifs
      · exact List.subset_append_left _ _
      · exact List.Subset.refl _
  · rw [Reading.sides_read_of_ne heq]
    exact List.Subset.refl _

theorem completed_foldl_subset (fields : List (String × String)) (key : String) :
    (r.sides key).completed ⊆ ((fields.foldl (Reading.read strtod) r).sides key).completed := by
  induction fields generalizing r with
  | nil => exact List.Subset.refl _
  | cons field fields ih => exact List.Subset.trans (completed_read_subset field key) ih

/-- A string that is read as a volume is the volume of a completed level. -/
theorem exists_completed_of_volume (strtod : String → Double) {fields : List (String × String)}
    (hroom : r.Room fields.length) {field : String × String}
    (h : field ∈ alternate r.volumeNext fields) :
    ∃ level ∈ ((fields.foldl (Reading.read strtod) r).sides field.1).completed,
      level.volume = strtod field.2 := by
  induction fields generalizing r with
  | nil => exact absurd h List.not_mem_nil
  | cons first fields ih =>
    have hnext : (r.read strtod first).Room fields.length := hroom.read first
    cases hb : r.volumeNext with
    | false =>
      rw [hb,alternate] at h
      refine ih hnext ?_
      rwa [Reading.volumeNext_read,hb,Bool.not_false]
    | true =>
      rw [hb,alternate,List.mem_cons] at h
      rcases h with rfl | h
      · obtain ⟨level,storage,hstorage⟩ := hroom.storage_eq field.1
        refine ⟨{ level with volume := strtod field.2 },completed_foldl_subset fields field.1 ?_,rfl⟩
        rw [Reading.sides_read_self,hb,SideLevels.write,hstorage]
        exact List.mem_concat_self
      · refine ih hnext ?_
        rwa [Reading.volumeNext_read,hb,Bool.not_true]

/-- The number is that of the second of the strings. -/
def IsSecondOf (strtod : String → Double) (strings : List String) (number : Double) : Prop :=
  ∃ price volume more, strings = price :: volume :: more ∧ strtod volume = number

def IsSecond (strtod : String → Double) (arrays : List (String × List String)) (number : Double) :
    Prop :=
  ∃ array ∈ arrays, IsSecondOf strtod array.2 number

theorem isSecondOf_cons_cons {price volume : String} {more : List String} {number : Double} :
    IsSecondOf strtod (price :: volume :: more) number ↔ strtod volume = number := by
  constructor
  · rintro ⟨_,_,_,hstrings,hnumber⟩
    cases hstrings
    exact hnumber
  · exact fun h => ⟨price,volume,more,rfl,h⟩

theorem IsSecondOf.mem {strings : List String} {number : Double}
    (h : IsSecondOf strtod strings number) : number ∈ strings.map strtod := by
  obtain ⟨price,volume,more,rfl,rfl⟩ := h
  exact List.mem_map_of_mem (List.mem_cons_of_mem _ List.mem_cons_self)

theorem not_isSecondOf_first {price : String} {more : List String}
    (h : ((price :: more).map strtod).Nodup) :
    ¬ IsSecondOf strtod (price :: more) (strtod price) := by
  rintro ⟨_,volume,more,hstrings,hvolume⟩
  obtain ⟨rfl,rfl⟩ := List.cons.inj hstrings
  rw [List.map_cons,List.nodup_cons,List.map_cons,← hvolume] at h
  exact h.1 List.mem_cons_self

theorem not_isSecondOf_fourth {price volume third fourth : String} {more : List String}
    (h : ((price :: volume :: third :: fourth :: more).map strtod).Nodup) :
    ¬ IsSecondOf strtod (price :: volume :: third :: fourth :: more) (strtod fourth) := by
  rw [isSecondOf_cons_cons]
  intro hvolume
  rw [List.map_cons,List.nodup_cons,List.map_cons,List.nodup_cons] at h
  refine h.2.1 ?_
  rw [hvolume]
  exact List.mem_map_of_mem (by simp)

theorem DecodedFrom.isSecond {key : String} {arrays : List (String × List String)}
    {levels : List (OrderbookLevel Double)} (h : DecodedFrom strtod key arrays levels)
    {level : OrderbookLevel Double} (hlevel : level ∈ levels) :
    IsSecond strtod arrays level.volume := by
  induction h with
  | nil => exact absurd hlevel List.not_mem_nil
  | level price volume more _ ih =>
    rcases List.mem_cons.mp hlevel with rfl | hlevel
    · exact List.exists_mem_cons_of _ ⟨price,volume,more,rfl,rfl⟩
    · exact List.exists_mem_cons_of_exists (ih hlevel)
  | skipped _ _ ih => exact List.exists_mem_cons_of_exists (ih hlevel)

def numbers (strtod : String → Double) (arrays : List (String × List String)) : List Double :=
  (bookFields arrays).map (fun field => strtod field.2)

theorem numbers_cons (key : String) (strings : List String)
    (arrays : List (String × List String)) :
    numbers strtod ((key,strings) :: arrays) = strings.map strtod ++ numbers strtod arrays := by
  rw [numbers,bookFields_cons,List.map_append,List.map_map]
  rfl

theorem IsSecond.mem_numbers {arrays : List (String × List String)} {number : Double}
    (h : IsSecond strtod arrays number) : number ∈ numbers strtod arrays := by
  induction arrays with
  | nil => exact absurd h (fun ⟨_,hmem,_⟩ => List.not_mem_nil hmem)
  | cons array arrays ih =>
    rw [numbers_cons array.1,List.mem_append]
    exact ((List.exists_mem_cons_iff ..).mp h).imp IsSecondOf.mem ih

/-- Of numbers that are all different, let every one that is read as a volume be the second of an
array or one of the `seen`, which are not among them. Then the arrays are regular, or without
strings if a volume is awaited. -/
theorem regular_of_isSecond {arrays : List (String × List String)}
    (hnodup : (numbers strtod arrays).Nodup) {seen : Double → Prop}
    (hseen : ∀ number ∈ numbers strtod arrays, ¬ seen number) {b : Bool}
    (h : ∀ field ∈ alternate b (bookFields arrays),
      seen (strtod field.2) ∨ IsSecond strtod arrays (strtod field.2)) :
    if b then ∀ array ∈ arrays, array.2 = [] else Regular arrays := by
  induction arrays generalizing seen b with
  | nil =>
    cases b with
    | false => exact trivial
    | true => exact fun _ hmem => absurd hmem List.not_mem_nil
  | cons array arrays ih =>
    obtain ⟨key,strings⟩ := array
    rw [numbers_cons,List.nodup_append'] at hnodup
    obtain ⟨hstrings,hnumbers,hdisjoint⟩ := hnodup
    rw [numbers_cons] at hseen
    rw [bookFields_cons] at h
    -- a string of this array that is read as a volume can only be its second
    have hhead : ∀ text ∈ strings, (key,text) ∈
        alternate b (strings.map (fun text => (key,text)) ++ bookFields arrays) →
        IsSecondOf strtod strings (strtod text) := by
      intro text htext hvolume
      have hmem : strtod text ∈ strings.map strtod := List.mem_map_of_mem htext
      rcases h _ hvolume with hs | hs
      · exact absurd hs (hseen _ (List.mem_append_left _ hmem))
      · exact ((List.exists_mem_cons_iff ..).mp hs).resolve_right
          (fun hlater => hdisjoint hmem (IsSecond.mem_numbers hlater))
    -- and what is behind the array is as assumed, with its second string among the seen
    have hnext : ∀ b', alternate b' (bookFields arrays) ⊆
        alternate b (strings.map (fun text => (key,text)) ++ bookFields arrays) →
        if b' then ∀ array ∈ arrays, array.2 = [] else Regular arrays := by
      intro b' hsubset
      have hseen' : ∀ number ∈ numbers strtod arrays,
          ¬ (seen number ∨ IsSecondOf strtod strings number) := by
        rintro number hmem (hs | hs)
        · exact hseen number (List.mem_append_right _ hmem) hs
        · exact hdisjoint hs.mem hmem
      refine ih hnumbers hseen' ?_
      intro field hfield
      rw [or_assoc]
      exact (h field (hsubset hfield)).imp_right (List.exists_mem_cons_iff ..).mp
    rcases strings with _ | ⟨price,more⟩
    · have hrest := hnext b (List.Subset.refl _)
      cases b with
      | false => exact Or.inl ⟨Or.inl rfl,hrest⟩
      | true => exact List.forall_mem_cons.mpr ⟨rfl,hrest⟩
    cases b with
    | true =>
      -- the first string would be a volume
      have hsecond := hhead price List.mem_cons_self List.mem_cons_self
      exact absurd hsecond (not_isSecondOf_first hstrings)
    | false =>
      rcases more with _ | ⟨volume,_ | ⟨third,_ | ⟨fourth,more⟩⟩⟩
      · exact Or.inr ⟨Or.inl rfl,hnext true (List.Subset.refl _)⟩
      · exact Or.inl ⟨Or.inr rfl,hnext false (List.subset_cons_self _ _)⟩
      · exact Or.inr ⟨Or.inr rfl,hnext true (List.subset_cons_self _ _)⟩
      · have hsecond := hhead fourth (by simp) (by simp [alternate])
        exact absurd hsecond (not_isSecondOf_fourth hstrings)

/-- If the numbers are all different, only regular arrays are read as the levels they are. -/
theorem regular_of_decodedFrom {arrays : List (String × List String)}
    (hnodup : (numbers strtod arrays).Nodup) (hr : r.volumeNext = false)
    (hroom : r.Room (bookFields arrays).length)
    (h : ∀ field ∈ bookFields arrays, DecodedFrom strtod field.1 arrays
      (((bookFields arrays).foldl (Reading.read strtod) r).sides field.1).completed) :
    Regular arrays := by
  have hnone : ∀ number ∈ numbers strtod arrays, ¬ False := fun _ _ => id
  have hvolumes : ∀ field ∈ alternate false (bookFields arrays),
      False ∨ IsSecond strtod arrays (strtod field.2) := by
    intro field hfield
    have hvolume : field ∈ alternate r.volumeNext (bookFields arrays) := by rwa [hr]
    obtain ⟨level,hlevel,hnumber⟩ := exists_completed_of_volume strtod hroom hvolume
    rw [← hnumber]
    exact Or.inr ((h field (mem_of_mem_alternate hfield)).isSecond hlevel)
  exact regular_of_isSecond hnodup hnone hvolumes

end Volumes
end Moboware
