import Moboware.Library.OrderedMap

/-! # Ordered maps seen through an embedding of the keys

Two maps whose traversals agree up to a renaming of keys and values, where the
renaming is an order embedding on the keys that occur. Every map operation keeps
the relation, also between maps with differently ordered keys.
-/
namespace Library.OrderedMap
variable {κ κ' α β : Type*} {lt : κ → κ → Prop} {lt' : κ' → κ' → Prop}

/-- `f` embeds the keys in `S`, and `n` is the image of `m` under `f` and `g`. -/
structure Mapped (S : κ → Prop) (f : κ → κ') (g : α → β) (m : OrderedMap κ α lt)
    (n : OrderedMap κ' β lt') : Prop where
  embeds : ∀ a b, S a → S b → (lt' (f a) (f b) ↔ lt a b)
  entries : n.entries = m.entries.map (fun e => (f e.1,g e.2))
  keys : ∀ e ∈ m.entries, S e.1

namespace Mapped
variable {S : κ → Prop} {f : κ → κ'} {g : α → β} {m : OrderedMap κ α lt}
  {n : OrderedMap κ' β lt'} (h : Mapped S f g m n)
include h

theorem modifyBegin {v : α} {w : β} (hv : g v = w) :
    Mapped S f g (m.modifyBegin (fun _ => v)) (n.modifyBegin (fun _ => w)) := by
  have he := h.entries
  have hk := h.keys
  rcases hm : m.entries with _ | ⟨e,es⟩
  · rw [hm,List.map_nil] at he
    exact ⟨h.embeds,by simp [OrderedMap.modifyBegin,he,hm],by simp [OrderedMap.modifyBegin,hm]⟩
  · rw [hm] at he hk
    refine ⟨h.embeds,by simp [OrderedMap.modifyBegin,he,hm,hv],?_⟩
    simpa [OrderedMap.modifyBegin,hm] using hk

section Keyed
variable [IsStrictTotalOrder κ lt] [IsStrictTotalOrder κ' lt']

theorem eq_iff {a b : κ} (ha : S a) (hb : S b) : f a = f b ↔ a = b := by
  refine ⟨fun he => ?_,congrArg f⟩
  rcases trichotomous_of lt a b with hlt | rfl | hlt
  · exact absurd (he ▸ (h.embeds a b ha hb).mpr hlt) (irrefl_of lt' (f a))
  · rfl
  · exact absurd (he ▸ (h.embeds b a hb ha).mpr hlt) (irrefl_of lt' (f b))

theorem split {k : κ} {v : α} {pre post : List (κ × α)} (hs : Split m k v pre post) :
    Split n (f k) (g v) (pre.map (fun e => (f e.1,g e.2))) (post.map (fun e => (f e.1,g e.2))) := by
  have hkeys := h.keys
  rw [hs.entries] at hkeys
  have hk : S k := hkeys (k,v) (by simp)
  have hne : ∀ l : List (κ × α), (∀ e ∈ l, S e.1) → (∀ e ∈ l, e.1 ≠ k) →
      ∀ e ∈ l.map (fun e => (f e.1,g e.2)), e.1 ≠ f k := by
    intro l hS hl e he heq
    obtain ⟨e',he',rfl⟩ := List.mem_map.mp he
    exact hl e' he' ((h.eq_iff (hS e' he') hk).mp heq)
  refine ⟨by rw [h.entries,hs.entries,List.map_append,List.map_cons],?_,?_⟩
  · exact hne pre (fun e he => hkeys e (by simp [he])) hs.pre_ne
  · exact hne post (fun e he => hkeys e (by simp [he])) hs.post_ne

variable [DecidableEq κ] [DecidableEq κ']

theorem find? {k : κ} (hk : S k) : n.find? (f k) = (m.find? k).map g := by
  have hp : ∀ l : List (κ × α), (∀ e ∈ l, S e.1) →
      (l.map (fun e => (f e.1,g e.2))).find? (fun e => decide (e.1 = f k)) =
        (l.find? (fun e => decide (e.1 = k))).map (fun e => (f e.1,g e.2)) := by
    intro l hl
    induction l with
    | nil => rfl
    | cons e l ih =>
      have he := h.eq_iff (hl e List.mem_cons_self) hk
      by_cases hek : e.1 = k
      · simp [hek]
      · simpa [hek,mt he.mp hek] using ih (fun e' he' => hl e' (List.mem_cons_of_mem e he'))
  rw [OrderedMap.find?,OrderedMap.find?,h.entries,hp m.entries h.keys,Option.map_map,Option.map_map]
  rfl

theorem modify {k : κ} (hk : S k) {v : α} {w : β} (hv : g v = w) :
    Mapped S f g (m.modify k (fun _ => v)) (n.modify (f k) (fun _ => w)) where
  embeds := h.embeds
  entries := by
    simp only [OrderedMap.modify,h.entries,List.map_map]
    refine List.map_congr_left (fun e he => ?_)
    have hek := h.eq_iff (h.keys e he) hk
    by_cases heq : e.1 = k <;> simp [heq,hek,hv]
  keys e he := by
    obtain ⟨e',he',rfl⟩ := List.mem_map.mp he
    split_ifs <;> exact h.keys e' he'

theorem erase {k : κ} (hk : S k) : Mapped S f g (m.erase k) (n.erase (f k)) where
  embeds := h.embeds
  entries := by
    simp only [OrderedMap.erase,h.entries,List.filter_map]
    refine congrArg _ (List.filter_congr (fun e he => ?_))
    simp [h.eq_iff (h.keys e he) hk]
  keys e he := h.keys e (OrderedMap.mem_erase.mp he).1

variable [DecidableRel lt] [DecidableRel lt']

theorem emplace {k : κ} (hk : S k) (v : α) :
    Mapped S f g (m.emplace k v).1 (n.emplace (f k) (g v)).1 ∧
      (n.emplace (f k) (g v)).2 = (m.emplace k v).2 := by
  have hp : ∀ l : List (κ × α), (∀ e ∈ l, S e.1) →
      place lt' (f k) (g v) (l.map (fun e => (f e.1,g e.2))) =
        (place lt k v l).map (fun e => (f e.1,g e.2)) := by
    intro l hl
    induction l with
    | nil => rfl
    | cons e l ih =>
      have he := hl e List.mem_cons_self
      simp only [List.map_cons,place,h.embeds k e.1 hk he,h.eq_iff hk he,
        ih (fun e' he' => hl e' (List.mem_cons_of_mem e he'))]
      split_ifs <;> rfl
  refine ⟨⟨h.embeds,?_,?_⟩,?_⟩
  · simp only [OrderedMap.emplace,h.entries,hp m.entries h.keys]
  · intro e he
    rcases mem_place he with rfl | he
    · exact hk
    · exact h.keys e he
  · simp only [OrderedMap.emplace,h.find? hk,Option.isNone_map]

end Keyed
end Mapped
end Library.OrderedMap
