import Moboware.Library.JsonGrammar

/-! # The document at the front of a text

The value that a text starts with, and what stands behind it. It is the same value in front
of more text, unless it is a number up to the end of the text.
-/
namespace Library
namespace Json

variable {c : Char} {cs rest x u : List Char} {fuel : ℕ} {v : Json}

/-- The value at the front of a text, and the text behind it. -/
def front (cs : List Char) : Option (Json × List Char) := value (cs.length + 1) cs

theorem decode_eq_some_iff_front {text : String} : decode text = some v ↔
    ∃ rest, front text.toList = some (v,rest) ∧ Blank rest := by
  rw [decode_eq_some_iff]
  exact exists_congr (fun _ => and_congr_right (fun _ => skip_eq_nil_iff))

theorem front_eq_some_iff (hu : Follows rest) : front cs = some (v,rest) ↔
    ∃ x, cs = x ++ rest ∧ Spells (.value v) x := by
  constructor
  · exact (reads_spells _).1 _ _ _
  · rintro ⟨x,rfl,hx⟩
    exact hx.taken _ rest (by rw [List.length_append]; omega) hu

section Numbers

/-- A reader that has stopped in front of a character stops there whatever comes behind it. -/
def Stops (reader : List Char → Option (List Char × List Char)) : Prop :=
  ∀ cs x c rest, reader cs = some (x,c :: rest) → ∀ u, reader (cs ++ u) = some (x,c :: rest ++ u)

theorem digits_stops : Stops digits := by
  intro cs x c rest h u
  rw [digits] at h
  split_ifs at h with hne
  obtain ⟨rfl,hdrop⟩ := Prod.mk.inj (Option.some.inj h)
  have htake : (cs ++ u).takeWhile isDigit = cs.takeWhile isDigit := by
    rw [List.takeWhile_append,if_neg]
    intro hlength
    have hall := List.takeWhile_append_dropWhile (p := isDigit) (l := cs)
    rw [hdrop] at hall
    have := congrArg List.length hall
    rw [List.length_append,List.length_cons] at this
    omega
  have hrest : (cs ++ u).dropWhile isDigit = c :: rest ++ u := by
    rw [List.dropWhile_append,hdrop]
    rfl
  rw [digits,htake,if_neg hne,hrest]

theorem integer_stops : Stops integer := by
  intro cs x c rest h u
  cases cs with
  | nil => cases h
  | cons d cs =>
    rw [List.cons_append]
    rw [integer] at h ⊢
    split_ifs at h ⊢
    · cases h
      rfl
    · exact digits_stops _ _ _ _ h u

theorem fraction_stops : Stops fraction := by
  intro cs x c rest h u
  cases cs with
  | nil => cases h
  | cons d cs =>
    rw [List.cons_append]
    rw [fraction] at h ⊢
    split_ifs at h ⊢
    · obtain ⟨⟨y,rest'⟩,hdigits,he⟩ := Option.map_eq_some_iff.mp h
      cases he
      rw [digits_stops _ _ _ _ hdigits u]
      rfl
    · cases h
      rfl

theorem sign_append (signs : List Char) (d : Char) (cs u : List Char) :
    sign signs (d :: cs ++ u) = ((sign signs (d :: cs)).1,(sign signs (d :: cs)).2 ++ u) := by
  rw [List.cons_append,sign,sign]
  split_ifs <;> rfl

theorem exponent_stops : Stops exponent := by
  intro cs x c rest h u
  cases cs with
  | nil => cases h
  | cons d cs =>
    rw [List.cons_append]
    rw [exponent] at h ⊢
    split_ifs at h ⊢
    · obtain ⟨⟨y,rest'⟩,hdigits,he⟩ := Option.map_eq_some_iff.mp h
      cases he
      cases cs with
      | nil => cases hdigits
      | cons e cs =>
        rw [sign_append,digits_stops _ _ _ _ hdigits u]
        rfl
    · cases h
      rfl

theorem numeral_stops : Stops numeral := by
  intro cs x c rest h u
  simp only [numeral,Option.bind_eq_bind,Option.bind_eq_some_iff] at h
  obtain ⟨⟨int,afterInt⟩,hint,⟨frac,afterFrac⟩,hfrac,⟨exp,afterExp⟩,hexp,he⟩ := h
  obtain ⟨rfl,rfl⟩ := Prod.mk.inj (Option.some.inj he)
  cases cs with
  | nil => cases hint
  | cons d cs =>
    cases afterFrac with
    | nil => cases hexp
    | cons _ _ =>
      cases afterInt with
      | nil => cases hfrac
      | cons _ _ =>
        rw [numeral,sign_append]
        dsimp only
        rw [integer_stops _ _ _ _ hint u]
        refine (congrArg (Option.bind · _) (fraction_stops _ _ _ _ hfrac u)).trans ?_
        exact congrArg (Option.bind · _) (exponent_stops _ _ _ _ hexp u)

end Numbers

/-- A value that is no number has its own end. -/
theorem Spells.value_of_ne (h : Spells (.value v) x) (hv : ∀ n, v ≠ .number n)
    (hfuel : x.length < fuel) : value fuel (x ++ u) = some (v,u) := by
  obtain ⟨fuel,rfl⟩ := Nat.exists_eq_add_one.mpr (show 0 < fuel by omega)
  cases h with
  | scalar hs h => exact (value_eq_scalar hs h).trans (h.reads_of_ne hv)
  | emptyObject hs ht => exact value_emptyObject hs ht
  | object hs h =>
    simp only [List.length_append,List.length_cons] at hfuel
    exact value_object hs h (h.taken fuel u (by omega))
  | emptyArray hs ht => exact value_emptyArray hs ht
  | array hs h =>
    simp only [List.length_append,List.length_cons] at hfuel
    exact value_array hs h (h.taken fuel u (by omega))

/-- What is read behind a text that does not end in the middle of a number changes nothing of
the value at its front. -/
theorem front_append (h : front cs = some (v,rest)) (hend : rest = [] → ∀ n, v ≠ .number n)
    (u : List Char) : front (cs ++ u) = some (v,rest ++ u) := by
  obtain ⟨x,rfl,hx⟩ := (reads_spells _).1 _ _ _ h
  rw [List.append_assoc]
  by_cases hv : ∃ n, v = .number n
  · obtain ⟨n,rfl⟩ := hv
    cases hx with
    | @scalar _ s y hs hy =>
      cases hy with
      | word hword => cases hword
      | number hn =>
        obtain ⟨c,rest',rfl⟩ := List.exists_cons_of_ne_nil (fun hnil => hend hnil _ rfl)
        have hy : Scalar (.number (String.ofList y)) y := .number hn
        rw [front,value_eq_scalar hs hy,scalar_numeral hn] at h ⊢
        obtain ⟨⟨z,rest''⟩,hnumeral,he⟩ := Option.map_eq_some_iff.mp h
        obtain ⟨hz,rfl⟩ := Prod.mk.inj he
        have hstops := numeral_stops _ _ _ _ hnumeral u
        rw [List.append_assoc] at hstops
        rw [hstops,Option.map_some,hz]
  · exact hx.value_of_ne (fun n hn => hv ⟨n,hn⟩) (by rw [List.length_append]; omega)

/-- Without its line breaks and tabs, a text has the same document at its front. -/
theorem front_filter {keep : Char → Bool} (hkeep : ∀ c, keep c = false → isSpace c = true ∧ c ≠ ' ')
    (h : front cs = some (v,rest)) (hrest : Blank rest) :
    front (cs.filter keep) = some (v,rest.filter keep) := by
  obtain ⟨x,rfl,hx⟩ := (front_eq_some_iff (follows_of_blank hrest)).mp h
  rw [List.filter_append]
  exact (front_eq_some_iff (follows_of_blank (hrest.filter keep))).mpr ⟨_,rfl,hx.filter hkeep⟩

end Json
end Library
