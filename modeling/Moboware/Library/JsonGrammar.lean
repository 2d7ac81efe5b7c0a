import Moboware.Library.JsonLexemes

/-! # The grammar of JSON

The texts of a value, with the white space in front of their tokens. The decoder accepts
these texts and no others.
-/
namespace Library
namespace Json

variable {cs rest s t x u : List Char} {fuel : ℕ} {v : Json}

inductive Scalar : Json → List Char → Prop
  | string {raw t : List Char} : Quoted raw t → Scalar (string (String.ofList t)) ('"' :: (raw ++ ['"']))
  | word {v : Json} {x : List Char} : Word v x → Scalar v x
  | number {x : List Char} : Numeral x → Scalar (number (String.ofList x)) x

/-- What a text may be: a value, or what is behind the opening bracket of one. -/
inductive Part
  | value (v : Json)
  | members (ms : List (String × Json))
  | elements (vs : List Json)

/-- A member up to the end of its value: white space, the key, white space, the colon and the
value. -/
def memberText (s raw t x : List Char) : List Char := s ++ '"' :: (raw ++ '"' :: (t ++ ':' :: x))

theorem memberText_append (s raw t x u : List Char) :
    memberText s raw t x ++ u = memberText s raw t (x ++ u) := by
  simp only [memberText,List.append_assoc,List.cons_append]

theorem length_memberText (s raw t x u : List Char) : (memberText s raw t x ++ u).length =
    s.length + raw.length + t.length + x.length + u.length + 3 := by
  simp only [memberText,List.length_append,List.length_cons]
  omega

inductive Spells : Part → List Char → Prop
  | scalar {v : Json} {s x : List Char} : Blank s → Scalar v x → Spells (.value v) (s ++ x)
  | emptyObject {s t : List Char} : Blank s → Blank t →
      Spells (.value (object [])) (s ++ '{' :: (t ++ ['}']))
  | object {ms : List (String × Json)} {s x : List Char} : Blank s → Spells (.members ms) x →
      Spells (.value (object ms)) (s ++ '{' :: x)
  | emptyArray {s t : List Char} : Blank s → Blank t →
      Spells (.value (array [])) (s ++ '[' :: (t ++ [']']))
  | array {vs : List Json} {s x : List Char} : Blank s → Spells (.elements vs) x →
      Spells (.value (array vs)) (s ++ '[' :: x)
  | lastMember {v : Json} {s raw key t x e : List Char} : Blank s → Quoted raw key → Blank t →
      Spells (.value v) x → Blank e →
      Spells (.members [(String.ofList key,v)]) (memberText s raw t x ++ (e ++ ['}']))
  | member {v : Json} {ms : List (String × Json)} {s raw key t x e y : List Char} : Blank s →
      Quoted raw key → Blank t → Spells (.value v) x → Blank e → Spells (.members ms) y →
      Spells (.members ((String.ofList key,v) :: ms)) (memberText s raw t x ++ (e ++ ',' :: y))
  | lastElement {v : Json} {x e : List Char} : Spells (.value v) x → Blank e →
      Spells (.elements [v]) (x ++ (e ++ [']']))
  | element {v : Json} {vs : List Json} {x e y : List Char} : Spells (.value v) x → Blank e →
      Spells (.elements vs) y → Spells (.elements (v :: vs)) (x ++ (e ++ ',' :: y))

section Sound

theorem quoted_reads (h : quoted cs = some (t,rest)) :
    ∃ raw, cs = raw ++ '"' :: rest ∧ Quoted raw t := quotedFrom_reads h

theorem scalar_reads (h : scalar cs = some (v,rest)) :
    ∃ s x, cs = s ++ x ++ rest ∧ Blank s ∧ Scalar v x := by
  rw [scalar] at h
  split at h
  · next cs' hquote =>
    obtain ⟨⟨t,rest'⟩,ht,he⟩ := Option.map_eq_some_iff.mp h
    cases he
    obtain ⟨s,hs,rfl⟩ := exists_of_token hquote
    obtain ⟨raw,rfl,hraw⟩ := quoted_reads ht
    exact ⟨s,_,by simp,hs,.string hraw⟩
  · obtain ⟨s,hs,hcs⟩ := exists_blank cs
    rcases Option.or_eq_some_iff.mp h with h | ⟨_,h⟩
    · obtain ⟨x,hx,hword⟩ := word_eq_some_iff.mp h
      exact ⟨s,x,by rw [List.append_assoc,← hx,← hcs],hs,.word hword⟩
    · obtain ⟨⟨x,rest'⟩,hnumeral,he⟩ := Option.map_eq_some_iff.mp h
      cases he
      obtain ⟨hx,hn⟩ := numeral_reads hnumeral
      exact ⟨s,x,by rw [List.append_assoc,← hx,← hcs],hs,.number hn⟩

/-- What a reader takes off the front of a text is a text of what it reads. -/
def ReadsPart {α : Type} (reader : List Char → Option (α × List Char)) (part : α → Part) : Prop :=
  ∀ cs a rest, reader cs = some (a,rest) → ∃ x, cs = x ++ rest ∧ Spells (part a) x

section Step
variable (hvalue : ReadsPart (value fuel) .value) (hmembers : ReadsPart (members fuel) .members)
  (helements : ReadsPart (elements fuel) .elements)

include hmembers helements in
theorem value_readsPart : ReadsPart (value (fuel + 1)) .value := by
  intro cs v rest h
  rw [value] at h
  split at h
  · next _ _ cs' hbrace =>
    obtain ⟨s,hs,rfl⟩ := exists_of_token hbrace
    split at h
    · next cs'' hclose =>
      cases h
      obtain ⟨t,ht,rfl⟩ := exists_of_token hclose
      exact ⟨_,by simp,.emptyObject hs ht⟩
    · obtain ⟨⟨ms,rest'⟩,hms,he⟩ := Option.map_eq_some_iff.mp h
      cases he
      obtain ⟨x,rfl,hx⟩ := hmembers _ _ _ hms
      exact ⟨_,by simp,.object hs hx⟩
  · next _ _ cs' _ hbracket =>
    obtain ⟨s,hs,rfl⟩ := exists_of_token hbracket
    split at h
    · next cs'' hclose =>
      cases h
      obtain ⟨t,ht,rfl⟩ := exists_of_token hclose
      exact ⟨_,by simp,.emptyArray hs ht⟩
    · obtain ⟨⟨vs,rest'⟩,hvs,he⟩ := Option.map_eq_some_iff.mp h
      cases he
      obtain ⟨x,rfl,hx⟩ := helements _ _ _ hvs
      exact ⟨_,by simp,.array hs hx⟩
  · obtain ⟨s,x,rfl,hs,hx⟩ := scalar_reads h
    exact ⟨_,rfl,.scalar hs hx⟩

include hvalue hmembers in
theorem members_readsPart : ReadsPart (members (fuel + 1)) .members := by
  intro cs ms rest h
  rw [members] at h
  simp only [Option.bind_eq_bind,Option.bind_eq_some_iff] at h
  obtain ⟨afterQuote,hquote,⟨key,afterKey⟩,hkey,afterColon,hcolon,⟨v,afterValue⟩,hv,h⟩ := h
  obtain ⟨s,hs,rfl⟩ := exists_of_token hquote
  obtain ⟨raw,rfl,hraw⟩ := quoted_reads hkey
  obtain ⟨t,ht,rfl⟩ := exists_of_token hcolon
  obtain ⟨x,rfl,hx⟩ := hvalue _ _ _ hv
  dsimp only at h
  split at h
  · next afterComma hcomma =>
    obtain ⟨⟨ms',rest'⟩,hms,he⟩ := Option.map_eq_some_iff.mp h
    cases he
    obtain ⟨e,he,rfl⟩ := exists_of_token hcomma
    obtain ⟨y,rfl,hy⟩ := hmembers _ _ _ hms
    exact ⟨_,by simp [memberText],.member hs hraw ht hx he hy⟩
  · obtain ⟨rest',hclose,he⟩ := Option.map_eq_some_iff.mp h
    cases he
    obtain ⟨e,he,rfl⟩ := exists_of_token hclose
    exact ⟨_,by simp [memberText],.lastMember hs hraw ht hx he⟩

include hvalue helements in
theorem elements_readsPart : ReadsPart (elements (fuel + 1)) .elements := by
  intro cs vs rest h
  rw [elements] at h
  simp only [Option.bind_eq_bind,Option.bind_eq_some_iff] at h
  obtain ⟨⟨v,afterValue⟩,hv,h⟩ := h
  obtain ⟨x,rfl,hx⟩ := hvalue _ _ _ hv
  dsimp only at h
  split at h
  · next afterComma hcomma =>
    obtain ⟨⟨vs',rest'⟩,hvs,he⟩ := Option.map_eq_some_iff.mp h
    cases he
    obtain ⟨e,he,rfl⟩ := exists_of_token hcomma
    obtain ⟨y,rfl,hy⟩ := helements _ _ _ hvs
    exact ⟨_,by simp,.element hx he hy⟩
  · obtain ⟨rest',hclose,he⟩ := Option.map_eq_some_iff.mp h
    cases he
    obtain ⟨e,he,rfl⟩ := exists_of_token hclose
    exact ⟨_,by simp,.lastElement hx he⟩

end Step

theorem reads_spells (fuel : ℕ) : ReadsPart (value fuel) .value ∧
    ReadsPart (members fuel) .members ∧ ReadsPart (elements fuel) .elements := by
  induction fuel with
  | zero => refine ⟨?_,?_,?_⟩ <;> intro _ _ _ h <;> cases h
  | succ fuel ih =>
    obtain ⟨hvalue,hmembers,helements⟩ := ih
    exact ⟨value_readsPart hmembers helements,members_readsPart hvalue hmembers,
      elements_readsPart hvalue helements⟩

end Sound

section Complete

theorem not_numberChar_of_isSpace {c : Char} (h : isSpace c = true) : ¬ NumberChar c := by
  rcases isSpace_iff.mp h with rfl | rfl | rfl | rfl <;> decide

/-- What may stand behind a value: no character of a numeral. -/
def Follows (u : List Char) : Prop := ∀ c ∈ u.head?, ¬ NumberChar c

theorem follows_blank {c : Char} (hs : Blank s) (hc : ¬ NumberChar c) : Follows (s ++ c :: u) :=
  head?_append_forall (head?_forall (fun _ hd => not_numberChar_of_isSpace (hs _ hd)))
    (fun d hd => by rwa [← Option.some_inj.mp hd])

theorem follows_of_blank (hs : Blank s) : Follows s :=
  head?_forall (fun _ hd => not_numberChar_of_isSpace (hs _ hd))

/-- Characters that no scalar starts with. -/
def notFirst : List Char := [' ','\t','\n','\r','{','[','}',']','e']

theorem Scalar.head (h : Scalar v x) : ∃ d y, x = d :: y ∧ d ∉ notFirst := by
  cases h with
  | string _ => exact ⟨_,_,rfl,by decide⟩
  | word h => cases h <;> exact ⟨_,_,rfl,by decide⟩
  | number h =>
    obtain ⟨d,y,rfl,hd⟩ := h.head
    refine ⟨d,y,rfl,?_⟩
    rcases hd with rfl | hd
    · decide
    · have hall : ∀ c ∈ notFirst, isDigit c = false := by simp [notFirst,isDigit]
      intro hmem
      rw [hall d hmem] at hd
      cases hd

theorem isSpace_eq_false {d : Char} (h : d ∉ notFirst) : isSpace d = false := by
  rw [← Bool.not_eq_true]
  intro hspace
  rcases isSpace_iff.mp hspace with rfl | rfl | rfl | rfl <;> exact h (by decide)

theorem scalar_numeral (hn : Numeral x) : scalar (x ++ u) =
    (numeral (x ++ u)).map (fun r => (number (String.ofList r.1),r.2)) := by
  obtain ⟨c,s,hc,hfirst⟩ := hn.head
  have hspace : isSpace c = false := by
    obtain ⟨d,y,hx,hd⟩ := (Scalar.number hn).head
    obtain ⟨rfl,rfl⟩ := List.cons.inj (hx.symm.trans hc)
    exact isSpace_eq_false hd
  have hne : c ≠ '"' ∧ c ≠ 't' ∧ c ≠ 'f' ∧ c ≠ 'n' := by
    rcases hfirst with rfl | hdigit
    · decide
    · refine ⟨?_,?_,?_,?_⟩ <;> rintro rfl <;> exact absurd hdigit (by decide)
  have hword : Json.word (x ++ u) = none := by
    apply word_eq_none
    intro e he
    rw [hc,List.cons_append,List.head?_cons,Option.mem_some_iff] at he
    rw [← he]
    exact hne.2
  have hquote : token '"' (x ++ u) = none := by
    rw [hc]
    exact token_of_ne hspace hne.1
  have hskip : skip (x ++ u) = x ++ u := by
    rw [hc]
    exact skip_cons hspace
  rw [scalar,hquote,hskip]
  dsimp only
  rw [hword,Option.none_or]

/-- A scalar that is no number has its own end. -/
theorem Scalar.reads_of_ne (h : Scalar v x) (hv : ∀ n, v ≠ .number n) :
    scalar (x ++ u) = some (v,u) := by
  obtain ⟨d,y,hx,hd⟩ := h.head
  have hskip : skip (x ++ u) = x ++ u := by
    rw [hx]
    exact skip_cons (isSpace_eq_false hd)
  cases h with
  | string hraw =>
    rw [scalar,List.cons_append,token_self rfl]
    dsimp only
    rw [List.append_assoc,List.singleton_append,hraw.quoted]
    rfl
  | word hword =>
    have hquote : token '"' (x ++ u) = none := by
      cases hword <;> exact token_of_ne rfl (by decide)
    rw [scalar,hquote,hskip]
    dsimp only
    rw [word_eq_some_iff.mpr ⟨x,rfl,hword⟩]
    rfl
  | number hn => exact absurd rfl (hv _)

theorem Scalar.reads (h : Scalar v x) (hu : Follows u) : scalar (x ++ u) = some (v,u) := by
  cases h with
  | string hraw => exact (Scalar.string hraw).reads_of_ne nofun
  | word hword => exact (Scalar.word hword).reads_of_ne (by cases hword <;> exact nofun)
  | number hn =>
    rw [scalar_numeral hn,hn.reads u hu]
    rfl

/-- The reader of a part takes its text off the front of a text, given as much fuel as the
text is long. -/
def Taken : Part → List Char → Prop
  | .value v,x => ∀ fuel u, x.length ≤ fuel → Follows u → value fuel (x ++ u) = some (v,u)
  | .members ms,x => ∀ fuel u, x.length ≤ fuel → members fuel (x ++ u) = some (ms,u)
  | .elements vs,x => ∀ fuel u, x.length ≤ fuel → elements fuel (x ++ u) = some (vs,u)

theorem value_brace (hs : Blank s) : value (fuel + 1) (s ++ '{' :: u) =
    match token '}' u with
    | some cs => some (object [],cs)
    | none => (members fuel u).map (fun r => (object r.1,r.2)) := by
  rewrite [value,token_blank hs,token_self rfl]
  rfl

theorem value_bracket (hs : Blank s) : value (fuel + 1) (s ++ '[' :: u) =
    match token ']' u with
    | some cs => some (array [],cs)
    | none => (elements fuel u).map (fun r => (array r.1,r.2)) := by
  rewrite [value,token_blank hs,token_blank hs,token_self rfl,token_of_ne rfl (by decide)]
  rfl

theorem members_memberText {raw key : List Char} (hs : Blank s) (hraw : Quoted raw key)
    (ht : Blank t) : members (fuel + 1) (memberText s raw t cs) =
      (value fuel cs).bind (fun r => match token ',' r.2 with
        | some cs => (members fuel cs).map (fun q => ((String.ofList key,r.1) :: q.1,q.2))
        | none => (token '}' r.2).map (fun cs => ([(String.ofList key,r.1)],cs))) := by
  have hcolon : token ':' (t ++ ':' :: cs) = some cs := by rw [token_blank ht,token_self rfl]
  rewrite [members,memberText,token_blank hs,token_self rfl]
  -- each reader takes its part of the text, and the next one goes on behind it
  refine (congrArg (Option.bind · _) (hraw.quoted _)).trans ?_
  exact congrArg (Option.bind · _) hcolon

theorem elements_eq : elements (fuel + 1) cs =
    (value fuel cs).bind (fun r => match token ',' r.2 with
      | some cs => (elements fuel cs).map (fun q => (r.1 :: q.1,q.2))
      | none => (token ']' r.2).map (fun cs => ([r.1],cs))) := rfl

theorem value_eq_scalar (hs : Blank s) (h : Scalar v x) :
    value (fuel + 1) (s ++ x ++ u) = scalar (x ++ u) := by
  obtain ⟨d,y,hx,hd⟩ := h.head
  have hscalar : scalar (s ++ x ++ u) = scalar (x ++ u) := by
    rw [List.append_assoc,scalar,token_blank hs,skip_blank hs,← scalar]
  have hnone : ∀ c, d ≠ c → token c (s ++ x ++ u) = none := by
    intro c hc
    rw [List.append_assoc,token_blank hs,hx]
    exact token_of_ne (isSpace_eq_false hd) hc
  have hbrace : d ≠ '{' := fun he => hd (he ▸ by decide)
  have hbracket : d ≠ '[' := fun he => hd (he ▸ by decide)
  rw [value,hnone '{' hbrace,hnone '[' hbracket]
  exact hscalar

theorem value_scalar (hs : Blank s) (h : Scalar v x) (hu : Follows u) :
    value (fuel + 1) (s ++ x ++ u) = some (v,u) := (value_eq_scalar hs h).trans (h.reads hu)

/-- The first token of a part is no closing bracket. -/
theorem Spells.token_eq_none {p : Part} (h : Spells p x) {c : Char} (hc : c = '}' ∨ c = ']') :
    token c (x ++ u) = none := by
  have hopen : ∀ {s d cs}, Blank s → isSpace d = false → d ≠ c → token c (s ++ d :: cs) = none := by
    intro s d cs hs hspace hne
    rw [token_blank hs]
    exact token_of_ne hspace hne
  have hne : '{' ≠ c ∧ '[' ≠ c ∧ '"' ≠ c := by
    rcases hc with rfl | rfl <;> decide
  induction h generalizing u with
  | scalar hs h =>
    obtain ⟨d,y,rfl,hd⟩ := h.head
    rw [List.append_assoc]
    refine hopen hs (isSpace_eq_false hd) ?_
    rintro rfl
    rcases hc with rfl | rfl <;> exact hd (by decide)
  | emptyObject hs _ | object hs _ _ =>
    rw [List.append_assoc]
    exact hopen hs rfl hne.1
  | emptyArray hs _ | array hs _ _ =>
    rw [List.append_assoc]
    exact hopen hs rfl hne.2.1
  | lastMember hs _ _ _ _ _ | member hs _ _ _ _ _ _ _ =>
    rw [memberText,List.append_assoc,List.append_assoc]
    exact hopen hs rfl hne.2.2
  | lastElement _ _ ih | element _ _ _ ih _ =>
    rw [List.append_assoc]
    exact ih

section Brackets
variable {ms : List (String × Json)} {vs : List Json}

theorem value_emptyObject (hs : Blank s) (ht : Blank t) :
    value (fuel + 1) (s ++ '{' :: (t ++ ['}']) ++ u) = some (object [],u) := by
  simp only [List.append_assoc,List.cons_append,List.nil_append]
  rw [value_brace hs,token_blank ht,token_self rfl]

theorem value_object (hs : Blank s) (h : Spells (.members ms) x)
    (hx : members fuel (x ++ u) = some (ms,u)) :
    value (fuel + 1) (s ++ '{' :: x ++ u) = some (object ms,u) := by
  rw [List.append_assoc,List.cons_append,value_brace hs,h.token_eq_none (Or.inl rfl)]
  dsimp only
  rw [hx]
  rfl

theorem value_emptyArray (hs : Blank s) (ht : Blank t) :
    value (fuel + 1) (s ++ '[' :: (t ++ [']']) ++ u) = some (array [],u) := by
  simp only [List.append_assoc,List.cons_append,List.nil_append]
  rw [value_bracket hs,token_blank ht,token_self rfl]

theorem value_array (hs : Blank s) (h : Spells (.elements vs) x)
    (hx : elements fuel (x ++ u) = some (vs,u)) :
    value (fuel + 1) (s ++ '[' :: x ++ u) = some (array vs,u) := by
  rw [List.append_assoc,List.cons_append,value_bracket hs,h.token_eq_none (Or.inr rfl)]
  dsimp only
  rw [hx]
  rfl

end Brackets

theorem Spells.taken {p : Part} (h : Spells p x) : Taken p x := by
  induction h with
  | scalar hs h =>
    intro fuel u hfuel hu
    obtain ⟨d,y,rfl,_⟩ := h.head
    simp only [List.length_append,List.length_cons] at hfuel
    obtain ⟨fuel,rfl⟩ := Nat.exists_eq_add_one.mpr (show 0 < fuel by omega)
    exact value_scalar hs h hu
  | emptyObject hs ht =>
    intro fuel u hfuel _
    simp only [List.length_append,List.length_cons] at hfuel
    obtain ⟨fuel,rfl⟩ := Nat.exists_eq_add_one.mpr (show 0 < fuel by omega)
    exact value_emptyObject hs ht
  | object hs h ih =>
    intro fuel u hfuel _
    simp only [List.length_append,List.length_cons] at hfuel
    obtain ⟨fuel,rfl⟩ := Nat.exists_eq_add_one.mpr (show 0 < fuel by omega)
    exact value_object hs h (ih fuel u (by omega))
  | emptyArray hs ht =>
    intro fuel u hfuel _
    simp only [List.length_append,List.length_cons] at hfuel
    obtain ⟨fuel,rfl⟩ := Nat.exists_eq_add_one.mpr (show 0 < fuel by omega)
    exact value_emptyArray hs ht
  | array hs h ih =>
    intro fuel u hfuel _
    simp only [List.length_append,List.length_cons] at hfuel
    obtain ⟨fuel,rfl⟩ := Nat.exists_eq_add_one.mpr (show 0 < fuel by omega)
    exact value_array hs h (ih fuel u (by omega))
  | lastMember hs hkey ht _ he ih =>
    intro fuel u hfuel
    rw [length_memberText] at hfuel
    obtain ⟨fuel,rfl⟩ := Nat.exists_eq_add_one.mpr (show 0 < fuel by omega)
    rw [memberText_append,memberText_append,members_memberText hs hkey ht,List.append_assoc,
      List.append_assoc,List.singleton_append,
      ih fuel _ (by omega) (follows_blank (c := '}') he (by decide))]
    simp only [Option.bind_some,token_blank he]
    rw [token_of_ne rfl (by decide),token_self rfl]
    rfl
  | member hs hkey ht _ he _ ih ihMore =>
    intro fuel u hfuel
    rw [length_memberText,List.length_append,List.length_cons] at hfuel
    obtain ⟨fuel,rfl⟩ := Nat.exists_eq_add_one.mpr (show 0 < fuel by omega)
    rw [memberText_append,memberText_append,members_memberText hs hkey ht,List.append_assoc,
      List.append_assoc,List.cons_append,
      ih fuel _ (by omega) (follows_blank (c := ',') he (by decide))]
    simp only [Option.bind_some,token_blank he]
    rw [token_self rfl]
    dsimp only
    rw [ihMore fuel u (by omega)]
    rfl
  | lastElement hv he ih =>
    intro fuel u hfuel
    simp only [List.length_append,List.length_cons] at hfuel
    obtain ⟨fuel,rfl⟩ := Nat.exists_eq_add_one.mpr (show 0 < fuel by omega)
    rw [List.append_assoc,List.append_assoc,List.singleton_append,elements_eq,
      ih fuel _ (by omega) (follows_blank (c := ']') he (by decide))]
    simp only [Option.bind_some,token_blank he]
    rw [token_of_ne rfl (by decide),token_self rfl]
    rfl
  | element hv he _ ih ihMore =>
    intro fuel u hfuel
    simp only [List.length_append,List.length_cons] at hfuel
    obtain ⟨fuel,rfl⟩ := Nat.exists_eq_add_one.mpr (show 0 < fuel by omega)
    rw [List.append_assoc,List.append_assoc,List.cons_append,elements_eq,
      ih fuel _ (by omega) (follows_blank (c := ',') he (by decide))]
    simp only [Option.bind_some,token_blank he]
    rw [token_self rfl]
    dsimp only
    rw [ihMore fuel u (by omega)]
    rfl

end Complete

/-- The documents are the texts of a value with white space behind it. -/
theorem decode_eq_some_iff_spells {text : String} : decode text = some v ↔
    ∃ x s, text.toList = x ++ s ∧ Spells (.value v) x ∧ Blank s := by
  rw [decode_eq_some_iff]
  constructor
  · rintro ⟨rest,hv,hrest⟩
    obtain ⟨x,hx,hspells⟩ := (reads_spells _).1 _ _ _ hv
    exact ⟨x,rest,hx,hspells,skip_eq_nil_iff.mp hrest⟩
  · rintro ⟨x,s,htext,hx,hs⟩
    refine ⟨s,?_,skip_eq_nil_iff.mpr hs⟩
    rw [htext]
    exact hx.taken _ s (by rw [List.length_append]; omega) (follows_of_blank hs)

theorem Blank.filter (h : Blank s) (keep : Char → Bool) : Blank (s.filter keep) :=
  fun c hc => h c (List.mem_of_mem_filter hc)

theorem toNat_ge_of_numberChar {c : Char} (h : NumberChar c) : 0x20 ≤ c.toNat := by
  rcases h with h | h
  · exact Nat.le_trans (by decide) (le_toNat_of_le (of_decide_eq_true h).1)
  · have hall : ∀ d ∈ ['+','-','.','e','E'], 0x20 ≤ d.toNat := by simp
    exact hall c h

theorem Scalar.toNat_ge (h : Scalar v x) : ∀ c ∈ x, 0x20 ≤ c.toNat := by
  cases h with
  | string h =>
    refine List.forall_mem_cons.mpr ⟨by decide,List.forall_mem_append.mpr ⟨h.body.toNat_ge,?_⟩⟩
    exact List.forall_mem_singleton.mpr (by decide)
  | word h => cases h <;> simp
  | number h => exact fun c hc => toNat_ge_of_numberChar (h.numberChar c hc)

section Filtered
variable {keep : Char → Bool} (hkeep : ∀ c, keep c = false → isSpace c = true ∧ c ≠ ' ')
include hkeep

theorem keep_of_not_space {c : Char} (h : isSpace c = false) : keep c = true := by
  rw [← Bool.not_eq_false]
  intro hdropped
  rw [(hkeep c hdropped).1] at h
  cases h

/-- Dropping white space other than blanks drops nothing inside a scalar. -/
theorem filter_of_ge (h : ∀ c ∈ s, 0x20 ≤ c.toNat) : s.filter keep = s := by
  rw [List.filter_eq_self]
  intro c hc
  rw [← Bool.not_eq_false]
  intro hdropped
  obtain ⟨hspace,hne⟩ := hkeep c hdropped
  have hge := h c hc
  rcases isSpace_iff.mp hspace with rfl | rfl | rfl | rfl
  · exact hne rfl
  all_goals exact absurd hge (by decide)

theorem filter_memberText {raw key : List Char} (hkey : Quoted raw key) :
    (memberText s raw t x).filter keep =
      memberText (s.filter keep) raw (t.filter keep) (x.filter keep) := by
  have hquote : keep '"' = true := keep_of_not_space hkeep rfl
  have hcolon : keep ':' = true := keep_of_not_space hkeep rfl
  simp only [memberText,List.filter_append,List.filter_cons_of_pos hquote,
    List.filter_cons_of_pos hcolon,filter_of_ge hkeep hkey.body.toNat_ge]

theorem Spells.filter {p : Part} (h : Spells p x) : Spells p (x.filter keep) := by
  have hself : ∀ {c}, isSpace c = false → keep c = true := keep_of_not_space hkeep
  induction h with
  | scalar hs h =>
    rw [List.filter_append,filter_of_ge hkeep h.toNat_ge]
    exact .scalar (hs.filter keep) h
  | emptyObject hs ht =>
    rw [List.filter_append,List.filter_cons_of_pos (hself rfl),List.filter_append,
      List.filter_cons_of_pos (hself rfl)]
    exact .emptyObject (hs.filter keep) (ht.filter keep)
  | object hs _ ih =>
    rw [List.filter_append,List.filter_cons_of_pos (hself rfl)]
    exact .object (hs.filter keep) ih
  | emptyArray hs ht =>
    rw [List.filter_append,List.filter_cons_of_pos (hself rfl),List.filter_append,
      List.filter_cons_of_pos (hself rfl)]
    exact .emptyArray (hs.filter keep) (ht.filter keep)
  | array hs _ ih =>
    rw [List.filter_append,List.filter_cons_of_pos (hself rfl)]
    exact .array (hs.filter keep) ih
  | lastMember hs hkey ht _ he ih =>
    rw [List.filter_append,filter_memberText hkeep hkey,List.filter_append,
      List.filter_cons_of_pos (hself rfl)]
    exact .lastMember (hs.filter keep) hkey (ht.filter keep) ih (he.filter keep)
  | member hs hkey ht _ he _ ih ihMore =>
    rw [List.filter_append,filter_memberText hkeep hkey,List.filter_append,
      List.filter_cons_of_pos (hself rfl)]
    exact .member (hs.filter keep) hkey (ht.filter keep) ih (he.filter keep) ihMore
  | lastElement _ he ih =>
    rw [List.filter_append,List.filter_append,List.filter_cons_of_pos (hself rfl)]
    exact .lastElement ih (he.filter keep)
  | element _ he _ ih ihMore =>
    rw [List.filter_append,List.filter_append,List.filter_cons_of_pos (hself rfl)]
    exact .element ih (he.filter keep) ihMore

/-- A document is the same document without its line breaks and tabs. -/
theorem decode_filter (h : decode (String.ofList cs) = some v) :
    decode (String.ofList (cs.filter keep)) = some v := by
  obtain ⟨x,s,hcs,hx,hs⟩ := decode_eq_some_iff_spells.mp h
  refine decode_eq_some_iff_spells.mpr ⟨x.filter keep,s.filter keep,?_,hx.filter hkeep,hs.filter keep⟩
  rw [String.toList_ofList] at hcs ⊢
  rw [hcs,List.filter_append]

end Filtered

end Json
end Library
