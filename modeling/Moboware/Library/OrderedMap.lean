import Mathlib.Order.RelClasses
import Mathlib.Data.List.Basic

/-! # Ordered maps with unique keys

A tree map under a strict total order is represented by its in-order traversal.
The strict sorting is a field, so a map with a repeated or misplaced key cannot
be built. Each operation comes with the split of the traversal that it edits.
-/
namespace Library
variable {κ α : Type*} {lt : κ → κ → Prop}

/-- The in-order traversal of a map, strictly increasing in the key. -/
@[ext] structure OrderedMap (κ α : Type*) (lt : κ → κ → Prop) where
  entries : List (κ × α)
  sorted : entries.Pairwise (fun a b => lt a.1 b.1)

namespace OrderedMap

def empty : OrderedMap κ α lt := ⟨[],List.Pairwise.nil⟩

/-- The entry the first iterator points at. -/
def begin? (m : OrderedMap κ α lt) : Option (κ × α) := m.entries.head?

/-- A write to the mapped value of the first iterator. -/
def modifyBegin (m : OrderedMap κ α lt) (f : α → α) : OrderedMap κ α lt where
  entries := m.entries.modifyHead (fun e => (e.1,f e.2))
  sorted := by
    rcases m with ⟨_ | ⟨e,es⟩,h⟩
    · exact List.Pairwise.nil
    · simpa only [List.modifyHead_cons, List.pairwise_cons] using h

section Keyed
variable [DecidableEq κ]

def find? (m : OrderedMap κ α lt) (k : κ) : Option α :=
  (m.entries.find? (fun e => decide (e.1 = k))).map Prod.snd

/-- A write to the mapped value of the iterator found at a key. -/
def modify (m : OrderedMap κ α lt) (k : κ) (f : α → α) : OrderedMap κ α lt where
  entries := m.entries.map (fun e => if e.1 = k then (e.1,f e.2) else e)
  sorted := by
    refine List.pairwise_map.mpr (m.sorted.imp ?_)
    intro a b hab
    split <;> split <;> exact hab

def erase (m : OrderedMap κ α lt) (k : κ) : OrderedMap κ α lt where
  entries := m.entries.filter (fun e => decide (e.1 ≠ k))
  sorted := m.sorted.filter _

theorem find?_eq_none_iff {m : OrderedMap κ α lt} {k : κ} :
    m.find? k = none ↔ ∀ e ∈ m.entries, e.1 ≠ k := by
  simp [find?]

/-- The traversal around the only entry with key `k`. -/
structure Split (m : OrderedMap κ α lt) (k : κ) (v : α) (pre post : List (κ × α)) : Prop where
  entries : m.entries = pre ++ (k,v) :: post
  pre_ne : ∀ e ∈ pre, e.1 ≠ k
  post_ne : ∀ e ∈ post, e.1 ≠ k

namespace Split
variable {m : OrderedMap κ α lt} {k : κ} {v : α} {pre post : List (κ × α)}

theorem find? (h : Split m k v pre post) : m.find? k = some v := by
  have hp : pre.find? (fun e => decide (e.1 = k)) = none := by
    simpa using h.pre_ne
  simp [OrderedMap.find?,h.entries,List.find?_append,hp]

theorem modify (h : Split m k v pre post) (f : α → α) :
    Split (m.modify k f) k (f v) pre post := by
  have hfix : ∀ l : List (κ × α), (∀ e ∈ l, e.1 ≠ k) →
      l.map (fun e => if e.1 = k then (e.1,f e.2) else e) = l := by
    intro l hl
    refine (List.map_congr_left (fun e he => if_neg (hl e he))).trans (List.map_id' l)
  refine ⟨?_,h.pre_ne,h.post_ne⟩
  simp only [OrderedMap.modify,h.entries,List.map_append,List.map_cons,↓reduceIte,
    hfix pre h.pre_ne,hfix post h.post_ne]

theorem erase_entries (h : Split m k v pre post) : (m.erase k).entries = pre ++ post := by
  have hkeep : ∀ l : List (κ × α), (∀ e ∈ l, e.1 ≠ k) →
      l.filter (fun e => decide (e.1 ≠ k)) = l :=
    fun l hl => List.filter_eq_self.mpr (fun e he => decide_eq_true (hl e he))
  simp only [OrderedMap.erase,h.entries,List.filter_append,List.filter_cons,ne_eq,
    not_true_eq_false,decide_false,Bool.false_eq_true,↓reduceIte]
  rw [← hkeep pre h.pre_ne,← hkeep post h.post_ne]
  simp only [List.filter_filter,Bool.and_self,ne_eq]

end Split

theorem erase_entries_of_find?_none {m : OrderedMap κ α lt} {k : κ} (h : m.find? k = none) :
    (m.erase k).entries = m.entries :=
  List.filter_eq_self.mpr (fun e he => decide_eq_true (find?_eq_none_iff.mp h e he))

theorem mem_erase {m : OrderedMap κ α lt} {k : κ} {e : κ × α} :
    e ∈ (m.erase k).entries ↔ e ∈ m.entries ∧ e.1 ≠ k := by
  simp [erase]

theorem begin?_modify_of_ne {m : OrderedMap κ α lt} {k j : κ} {v : α}
    (h : m.begin? = some (k,v)) (hj : k ≠ j) (f : α → α) :
    (m.modify j f).begin? = some (k,v) := by
  unfold begin? at h
  simp [begin?,modify,h,hj]

theorem begin?_erase_of_ne {m : OrderedMap κ α lt} {k j : κ} {v : α}
    (h : m.begin? = some (k,v)) (hj : k ≠ j) : (m.erase j).begin? = some (k,v) := by
  obtain ⟨rest,hr⟩ := List.head?_eq_some_iff.mp h
  simp [begin?,erase,hr,hj]

end Keyed

section Ordered
variable [DecidableEq κ] [IsStrictTotalOrder κ lt]

omit [DecidableEq κ] in
/-- The key decides the entry. -/
theorem split_of_mem {m : OrderedMap κ α lt} {k : κ} {v : α} (h : (k,v) ∈ m.entries) :
    ∃ pre post, Split m k v pre post := by
  obtain ⟨pre,post,he⟩ := List.append_of_mem h
  have hs := m.sorted
  rw [he,List.pairwise_append,List.pairwise_cons] at hs
  refine ⟨pre,post,he,?_,?_⟩
  · intro e hmem heq
    have hlt := hs.2.2 e hmem (k,v) List.mem_cons_self
    exact irrefl_of lt k (heq ▸ hlt)
  · intro e hmem heq
    have hlt := hs.2.1.1 e hmem
    exact irrefl_of lt k (heq ▸ hlt)

theorem find?_eq_some_iff {m : OrderedMap κ α lt} {k : κ} {v : α} :
    m.find? k = some v ↔ (k,v) ∈ m.entries := by
  constructor
  · intro h
    obtain ⟨e,he,rfl⟩ := Option.map_eq_some_iff.mp h
    have hk : e.1 = k := by simpa using List.find?_some he
    exact hk ▸ List.mem_of_find?_eq_some he
  · intro h
    obtain ⟨pre,post,hs⟩ := split_of_mem h
    exact hs.find?

theorem split_of_find? {m : OrderedMap κ α lt} {k : κ} {v : α} (h : m.find? k = some v) :
    ∃ pre post, Split m k v pre post := split_of_mem (find?_eq_some_iff.mp h)

omit [DecidableEq κ] in
theorem Split.of_cons {m : OrderedMap κ α lt} {k : κ} {v : α} {rest : List (κ × α)}
    (h : m.entries = (k,v) :: rest) : Split m k v [] rest := by
  refine ⟨h,by simp,?_⟩
  intro e he heq
  have hs := m.sorted
  rw [h,List.pairwise_cons] at hs
  exact irrefl_of lt k (heq ▸ hs.1 e he)

/-- Lookups determine the map. -/
theorem ext_find? {m n : OrderedMap κ α lt} (h : ∀ k, m.find? k = n.find? k) : m = n := by
  have hnd : ∀ l : OrderedMap κ α lt, l.entries.Nodup := by
    intro l
    refine l.sorted.imp ?_
    rintro a b hab rfl
    exact irrefl_of lt a.1 hab
  have hmem : ∀ e, e ∈ m.entries ↔ e ∈ n.entries := by
    rintro ⟨k,v⟩
    rw [← find?_eq_some_iff,← find?_eq_some_iff,h]
  refine OrderedMap.ext (((List.perm_ext_iff_of_nodup (hnd m) (hnd n)).mpr hmem).eq_of_pairwise ?_
    m.sorted n.sorted)
  intro a b _ _ hab hba
  exact absurd hba (asymm_of lt hab)

omit [IsStrictTotalOrder κ lt] in
theorem find?_modify (m : OrderedMap κ α lt) (k j : κ) (f : α → α) :
    (m.modify k f).find? j = if j = k then (m.find? j).map f else m.find? j := by
  have hp : ∀ l : List (κ × α),
      (l.map (fun e => if e.1 = k then (e.1,f e.2) else e)).find? (fun e => decide (e.1 = j)) =
        (l.find? (fun e => decide (e.1 = j))).map (fun e => if e.1 = k then (e.1,f e.2) else e) := by
    intro l
    rw [List.find?_map]
    congr 2
    funext e
    by_cases he : e.1 = k <;> simp [he]
  rw [find?,find?,modify,hp]
  cases h : m.entries.find? (fun e => decide (e.1 = j)) with
  | none => simp
  | some e =>
    have hj : e.1 = j := by simpa using List.find?_some h
    by_cases hk : j = k <;> simp [hj,hk]

theorem find?_erase (m : OrderedMap κ α lt) (k j : κ) :
    (m.erase k).find? j = if j = k then none else m.find? j := by
  split_ifs with hj
  · refine find?_eq_none_iff.mpr ?_
    intro e he
    exact hj ▸ (mem_erase.mp he).2
  · apply Option.ext
    intro v
    rw [find?_eq_some_iff,find?_eq_some_iff,mem_erase]
    exact and_iff_left hj

variable [DecidableRel lt]

/-- Insertion at the sorted position; an entry that already has the key stays. -/
def place (lt : κ → κ → Prop) [DecidableRel lt] (k : κ) (v : α) : List (κ × α) → List (κ × α)
  | [] => [(k,v)]
  | e :: es => if lt k e.1 then (k,v) :: e :: es else if k = e.1 then e :: es else e :: place lt k v es

omit [IsStrictTotalOrder κ lt] in
theorem mem_place {k : κ} {v : α} {e : κ × α} {l : List (κ × α)} (h : e ∈ place lt k v l) :
    e = (k,v) ∨ e ∈ l := by
  induction l with
  | nil => exact Or.inl (List.mem_singleton.mp h)
  | cons a l ih =>
    rw [place] at h
    split_ifs at h
    · exact List.mem_cons.mp h
    · exact Or.inr h
    · rcases List.mem_cons.mp h with rfl | h
      · exact Or.inr List.mem_cons_self
      · exact (ih h).imp_right (List.mem_cons_of_mem a)

theorem place_sorted (k : κ) (v : α) {l : List (κ × α)}
    (h : l.Pairwise (fun a b => lt a.1 b.1)) :
    (place lt k v l).Pairwise (fun a b => lt a.1 b.1) := by
  induction l with
  | nil => exact List.pairwise_singleton _ _
  | cons a l ih =>
    obtain ⟨ha,hl⟩ := List.pairwise_cons.mp h
    rw [place]
    split_ifs with hlt heq
    · refine List.pairwise_cons.mpr ⟨?_,h⟩
      intro e he
      rcases List.mem_cons.mp he with rfl | he
      · exact hlt
      · exact trans_of lt hlt (ha e he)
    · exact h
    · refine List.pairwise_cons.mpr ⟨?_,ih hl⟩
      intro e he
      rcases mem_place he with rfl | he
      · exact ((trichotomous_of lt k a.1).resolve_left hlt).resolve_left heq
      · exact ha e he

/-- Insertion that does not overwrite; the flag tells whether the key was new. -/
def emplace (m : OrderedMap κ α lt) (k : κ) (v : α) : OrderedMap κ α lt × Bool :=
  (⟨place lt k v m.entries,place_sorted k v m.sorted⟩,(m.find? k).isNone)

theorem place_of_split {k : κ} {v w : α} {pre post : List (κ × α)}
    (h : (pre ++ (k,w) :: post).Pairwise (fun a b => lt a.1 b.1)) :
    place lt k v (pre ++ (k,w) :: post) = pre ++ (k,w) :: post := by
  induction pre with
  | nil => rw [List.nil_append,place,if_neg (irrefl_of lt k),if_pos rfl]
  | cons a pre ih =>
    rw [List.cons_append,List.pairwise_cons] at h
    have hak : lt a.1 k := h.1 (k,w) (by simp)
    have hne : k ≠ a.1 := fun he => irrefl_of lt k (he ▸ hak)
    rw [List.cons_append,place,if_neg (asymm_of lt hak),if_neg hne,ih h.2]

/-- A key that is present keeps its entry, and nothing is inserted. -/
theorem Split.emplace {m : OrderedMap κ α lt} {k : κ} {w : α} {pre post : List (κ × α)}
    (h : Split m k w pre post) (v : α) : m.emplace k v = (m,false) := by
  have hp := place_of_split (v := v) (h.entries ▸ m.sorted)
  refine Prod.ext (OrderedMap.ext ?_) ?_
  · rw [← h.entries] at hp
    exact hp
  · rw [OrderedMap.emplace,h.find?]
    rfl

omit [IsStrictTotalOrder κ lt] in
theorem place_of_absent {k : κ} (v : α) {l : List (κ × α)} (h : ∀ e ∈ l, e.1 ≠ k) :
    ∃ pre post, l = pre ++ post ∧ place lt k v l = pre ++ (k,v) :: post := by
  induction l with
  | nil => exact ⟨[],[],rfl,rfl⟩
  | cons a l ih =>
    have hne : k ≠ a.1 := (h a List.mem_cons_self).symm
    rw [place,if_neg hne]
    split_ifs
    · exact ⟨[],a :: l,rfl,rfl⟩
    · obtain ⟨pre,post,hl,hp⟩ := ih (fun e he => h e (List.mem_cons_of_mem a he))
      exact ⟨a :: pre,post,by rw [hl,List.cons_append],by rw [hp,List.cons_append]⟩

/-- A new key is inserted between the entries it separates. -/
theorem emplace_of_find?_none {m : OrderedMap κ α lt} {k : κ} (h : m.find? k = none) (v : α) :
    (m.emplace k v).2 = true ∧ ∃ pre post, m.entries = pre ++ post ∧
      Split (m.emplace k v).1 k v pre post := by
  have habs := find?_eq_none_iff.mp h
  refine ⟨by rw [emplace,h]; rfl,?_⟩
  obtain ⟨pre,post,hl,hp⟩ := @place_of_absent κ α lt _ _ k v m.entries habs
  refine ⟨pre,post,hl,hp,?_,?_⟩
  · exact fun e he => habs e (hl ▸ List.mem_append_left post he)
  · exact fun e he => habs e (hl ▸ List.mem_append_right pre he)

theorem find?_emplace (m : OrderedMap κ α lt) (k j : κ) (v : α) :
    (m.emplace k v).1.find? j = if j = k then some ((m.find? k).getD v) else m.find? j := by
  cases h : m.find? k with
  | some w =>
    obtain ⟨pre,post,hs⟩ := split_of_find? h
    rw [hs.emplace v]
    split_ifs with hj
    · rw [hj,h,Option.getD_some]
    · rfl
  | none =>
    obtain ⟨_,pre,post,he,hs⟩ := emplace_of_find?_none h v
    split_ifs with hj
    · rw [hj,hs.find?,Option.getD_none]
    · apply Option.ext
      intro w
      have hmem : (j,w) ∈ (m.emplace k v).1.entries ↔ (j,w) ∈ m.entries := by
        simp [hs.entries,he,hj]
      rw [find?_eq_some_iff,find?_eq_some_iff,hmem]

/-- A write through the reference that indexing returns. -/
def assign (m : OrderedMap κ α lt) (k : κ) (v : α) : OrderedMap κ α lt :=
  (m.emplace k v).1.modify k (fun _ => v)

theorem find?_assign (m : OrderedMap κ α lt) (k j : κ) (v : α) :
    (m.assign k v).find? j = if j = k then some v else m.find? j := by
  rw [assign,find?_modify,find?_emplace]
  split_ifs <;> simp

/-- An insertion takes the first place only with a key before the first one. -/
theorem begin?_emplace {m : OrderedMap κ α lt} {k : κ} {v : α} (h : m.begin? = some (k,v)) (j : κ)
    (w : α) : (m.emplace j w).1.begin? = if lt j k then some (j,w) else some (k,v) := by
  obtain ⟨rest,hr⟩ := List.head?_eq_some_iff.mp h
  simp only [begin?,emplace,hr,place]
  split_ifs <;> simp

omit [DecidableEq κ] [DecidableRel lt] in
/-- No key stands before the first one. -/
theorem not_lt_begin? {m : OrderedMap κ α lt} {k : κ} {v : α} (h : m.begin? = some (k,v))
    {e : κ × α} (he : e ∈ m.entries) : ¬ lt e.1 k := by
  obtain ⟨rest,hr⟩ := List.head?_eq_some_iff.mp h
  have hs := m.sorted
  rw [hr,List.pairwise_cons] at hs
  rw [hr] at he
  rcases List.mem_cons.mp he with rfl | he
  · exact irrefl_of lt k
  · exact asymm_of lt (hs.1 e he)

end Ordered
end OrderedMap
end Library
