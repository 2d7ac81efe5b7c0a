import Mathlib.Data.List.TakeWhile
import Moboware.Library.JsonPasting

/-! # The lexemes of JSON

What the readers of strings and numbers take off the front of a text. A reader that stops
in one text stops at the same place in front of any other rest, if the rest does not go
on with the number.
-/
namespace Library
namespace Json

variable {c d : Char} {cs rest raw s t x : List Char} {fuel n : ℕ}

theorem isSpace_iff : isSpace c = true ↔ c = ' ' ∨ c = '\t' ∨ c = '\n' ∨ c = '\r' := by
  simp [isSpace,or_assoc]

def Blank (s : List Char) : Prop := ∀ c ∈ s, isSpace c = true

instance (s : List Char) : Decidable (Blank s) := List.decidableBAll _ s

theorem blank_nil : Blank [] := fun _ hc => absurd hc List.not_mem_nil

theorem exists_blank (cs : List Char) : ∃ s, Blank s ∧ cs = s ++ skip cs :=
  ⟨cs.takeWhile isSpace,fun _ hc => List.mem_takeWhile_imp hc,(List.takeWhile_append_dropWhile ..).symm⟩

theorem skip_blank (h : Blank s) : skip (s ++ cs) = skip cs := by
  induction s with
  | nil => rfl
  | cons c s ih =>
    rw [Blank,List.forall_mem_cons] at h
    rw [skip,List.cons_append,List.dropWhile_cons_of_pos h.1]
    exact ih h.2

theorem skip_eq_nil_iff : skip cs = [] ↔ Blank cs := List.dropWhile_eq_nil_iff

theorem skip_cons (h : isSpace c = false) : skip (c :: cs) = c :: cs :=
  List.dropWhile_cons_of_neg (by rw [h]; exact Bool.false_ne_true)

theorem token_blank (h : Blank s) : token c (s ++ cs) = token c cs := by
  rw [token,skip_blank h,token]

theorem exists_of_token (h : token c cs = some rest) : ∃ s, Blank s ∧ cs = s ++ c :: rest := by
  obtain ⟨s,hs,hcs⟩ := exists_blank cs
  refine ⟨s,hs,?_⟩
  rw [token] at h
  split at h
  · cases h
  · next d ds hskip =>
    split_ifs at h with hd
    rw [hcs,hskip,hd,Option.some_inj.mp h]

section Strings

/-- The raw text of a string: characters, and backslashes each with the character behind it. -/
inductive StringBody : List Char → Prop
  | nil : StringBody []
  | plain {c : Char} {s : List Char} : PlainChar c → StringBody s → StringBody (c :: s)
  | escaped {c : Char} {s : List Char} : 0x20 ≤ c.toNat → StringBody s → StringBody ('\\' :: c :: s)

theorem StringBody.append (hs : StringBody s) (ht : StringBody t) : StringBody (s ++ t) := by
  induction hs with
  | nil => exact ht
  | plain hc _ ih => exact .plain hc ih
  | escaped hc _ ih => exact .escaped hc ih

theorem stringBody_of_plain (h : Plain s) : StringBody s := by
  induction s with
  | nil => exact .nil
  | cons c s ih =>
    obtain ⟨hc,hs⟩ := List.forall_mem_cons.mp h
    exact .plain hc (ih hs)

/-- No line ends in a string. -/
theorem StringBody.toNat_ge (h : StringBody s) : ∀ c ∈ s, 0x20 ≤ c.toNat := by
  induction h with
  | nil => exact fun _ hc => absurd hc List.not_mem_nil
  | plain hc _ ih => exact List.forall_mem_cons.mpr ⟨hc.2.2,ih⟩
  | escaped hc _ ih => exact List.forall_mem_cons.mpr ⟨by decide,List.forall_mem_cons.mpr ⟨hc,ih⟩⟩

theorem le_toNat_of_le {b : Char} (h : b ≤ c) : b.toNat ≤ c.toNat := UInt32.le_iff_toNat_le.mp h

theorem plainChar_of_hexDigit (h : hexDigit c = some n) : PlainChar c := by
  refine ⟨?_,?_,?_⟩
  · rintro rfl
    rw [hexDigit_quote] at h
    cases h
  · rintro rfl
    exact absurd h.symm (Option.some_ne_none n)
  · rw [hexDigit] at h
    split_ifs at h with hdigit hlower hupper
    · exact Nat.le_trans (by decide) (le_toNat_of_le hdigit.1)
    · exact Nat.le_trans (by decide) (le_toNat_of_le hlower.1)
    · exact Nat.le_trans (by decide) (le_toNat_of_le hupper.1)

theorem hex4_reads (h : hex4 cs = some (n,rest)) :
    ∃ e, cs = e ++ rest ∧ Plain e ∧ ∀ u, hex4 (e ++ u) = some (n,u) := by
  match cs with
  | a :: b :: c :: d :: cs =>
    simp only [hex4,Option.bind_eq_bind,Option.bind_eq_some_iff,Option.some.injEq,
      Prod.mk.injEq] at h
    obtain ⟨x,ha,y,hb,z,hc,w,hd,hn,rfl⟩ := h
    refine ⟨[a,b,c,d],rfl,?_,fun u => ?_⟩
    · simp only [Plain,List.forall_mem_cons,List.not_mem_nil,false_imp_iff,implies_true,and_true]
      exact ⟨plainChar_of_hexDigit ha,plainChar_of_hexDigit hb,plainChar_of_hexDigit hc,
        plainChar_of_hexDigit hd⟩
    · simp [hex4,ha,hb,hc,hd,hn]
  | [] | [_] | [_,_] | [_,_,_] => simp [hex4] at h

theorem lowSurrogate_reads {high : ℕ} (h : lowSurrogate high cs = some (d,rest)) :
    ∃ e, cs = e ++ rest ∧ StringBody e ∧ ∀ u, lowSurrogate high (e ++ u) = some (d,u) := by
  unfold lowSurrogate at h
  split at h
  · next cs =>
    obtain ⟨⟨low,cs'⟩,hlow,hr⟩ := Option.bind_eq_some_iff.mp h
    obtain ⟨e,rfl,he,hread⟩ := hex4_reads hlow
    dsimp only at hr
    split_ifs at hr with hrange
    obtain ⟨hd,hrest⟩ := Prod.mk.inj (Option.some.inj hr)
    subst hrest
    refine ⟨'\\' :: 'u' :: e,rfl,.escaped (by decide) (stringBody_of_plain he),fun u => ?_⟩
    simp only [List.cons_append,lowSurrogate,hread,Option.bind_eq_bind,Option.bind_some,
      if_pos hrange,hd]
  · cases h

theorem unicodeEscape_reads (h : unicodeEscape cs = some (d,rest)) :
    ∃ e, cs = e ++ rest ∧ StringBody e ∧ ∀ u, unicodeEscape (e ++ u) = some (d,u) := by
  obtain ⟨⟨unit,cs'⟩,hunit,hr⟩ := Option.bind_eq_some_iff.mp h
  obtain ⟨e,rfl,he,hread⟩ := hex4_reads hunit
  dsimp only at hr
  split_ifs at hr with hhigh hlow
  · obtain ⟨e',rfl,he',hread'⟩ := lowSurrogate_reads hr
    refine ⟨e ++ e',(List.append_assoc ..).symm,(stringBody_of_plain he).append he',fun u => ?_⟩
    simp only [unicodeEscape,List.append_assoc,hread,Option.bind_eq_bind,Option.bind_some,
      if_pos hhigh,hread']
  · cases hr
    refine ⟨e,rfl,stringBody_of_plain he,fun u => ?_⟩
    simp only [unicodeEscape,hread,Option.bind_eq_bind,Option.bind_some,if_neg hhigh,if_neg hlow]

theorem toNat_ge_of_simpleEscape (h : simpleEscape c = some d) : 0x20 ≤ c.toNat := by
  rw [simpleEscape] at h
  split_ifs at h with hself hb hf hn hr ht
  · rcases hself with rfl | rfl | rfl <;> decide
  all_goals subst c; decide

theorem escape_reads (h : escape cs = some (d,rest)) :
    ∃ e, cs = e ++ rest ∧ StringBody ('\\' :: e) ∧ ∀ u, escape (e ++ u) = some (d,u) := by
  cases cs with
  | nil => cases h
  | cons c cs =>
    rw [escape] at h
    split_ifs at h with hc
    · subst hc
      obtain ⟨e,rfl,he,hread⟩ := unicodeEscape_reads h
      exact ⟨'u' :: e,rfl,.escaped (by decide) he,fun u => by
        rw [List.cons_append,escape,if_pos rfl,hread]⟩
    · obtain ⟨d',hd,he⟩ := Option.map_eq_some_iff.mp h
      cases he
      exact ⟨[c],rfl,.escaped (toNat_ge_of_simpleEscape hd) .nil,fun u => by
        rw [List.cons_append,List.nil_append,escape,if_neg hc,hd,Option.map_some]⟩

/-- The raw text of a string that is read as `t`. -/
structure Quoted (raw t : List Char) : Prop where
  body : StringBody raw
  reads : ∀ fuel, raw.length < fuel → ∀ u, quotedFrom fuel (raw ++ '"' :: u) = some (t,u)

theorem Quoted.nil : Quoted [] [] where
  body := .nil
  reads fuel hfuel u := by
    obtain ⟨fuel,rfl⟩ := Nat.exists_eq_add_one.mpr (Nat.zero_lt_of_lt hfuel)
    rw [List.nil_append,quotedFrom,if_pos rfl]

theorem Quoted.plain (hc : PlainChar c) (h : Quoted raw t) : Quoted (c :: raw) (c :: t) where
  body := .plain hc h.body
  reads fuel hfuel u := by
    obtain ⟨fuel,rfl⟩ := Nat.exists_eq_add_one.mpr (Nat.zero_lt_of_lt hfuel)
    rw [List.cons_append,quotedFrom,if_neg hc.1,if_neg hc.2.1,if_neg (Nat.not_lt.mpr hc.2.2),
      h.reads fuel (by simpa using hfuel)]
    rfl

theorem Quoted.escape {e : List Char} (he : StringBody ('\\' :: e))
    (hread : ∀ u, Json.escape (e ++ u) = some (d,u)) (h : Quoted raw t) :
    Quoted ('\\' :: (e ++ raw)) (d :: t) where
  body := he.append h.body
  reads fuel hfuel u := by
    obtain ⟨fuel,rfl⟩ := Nat.exists_eq_add_one.mpr (Nat.zero_lt_of_lt hfuel)
    have hlength : raw.length < fuel := by
      simp only [List.length_cons,List.length_append] at hfuel
      omega
    rw [List.cons_append,List.append_assoc,quotedFrom,if_neg (by decide),if_pos rfl,hread]
    simp only [Option.bind_eq_bind,Option.bind_some,h.reads fuel hlength]

theorem quotedFrom_reads (h : quotedFrom fuel cs = some (t,rest)) :
    ∃ raw, cs = raw ++ '"' :: rest ∧ Quoted raw t := by
  induction fuel generalizing cs t with
  | zero => cases h
  | succ fuel ih =>
    cases cs with
    | nil => cases h
    | cons c cs =>
      rw [quotedFrom] at h
      split_ifs at h with hquote hescape hcontrol
      · cases h
        exact ⟨[],by rw [hquote]; rfl,.nil⟩
      · obtain ⟨⟨d,cs'⟩,he,h⟩ := Option.bind_eq_some_iff.mp h
        obtain ⟨⟨t',rest'⟩,ht,h⟩ := Option.bind_eq_some_iff.mp h
        cases h
        obtain ⟨e,rfl,hbody,hread⟩ := escape_reads he
        obtain ⟨raw,rfl,hraw⟩ := ih ht
        exact ⟨'\\' :: (e ++ raw),by simp [hescape],hraw.escape hbody hread⟩
      · obtain ⟨⟨t',rest'⟩,ht,h⟩ := Option.bind_eq_some_iff.mp h
        cases h
        obtain ⟨raw,rfl,hraw⟩ := ih ht
        exact ⟨c :: raw,rfl,hraw.plain ⟨hquote,hescape,Nat.not_lt.mp hcontrol⟩⟩

theorem Quoted.quoted (h : Quoted raw t) (u : List Char) :
    Json.quoted (raw ++ '"' :: u) = some (t,u) :=
  h.reads _ (by rw [List.length_append,List.length_cons]; omega) u

theorem Quoted.of_plain (hs : Plain s) : Quoted s s := by
  induction s with
  | nil => exact .nil
  | cons c s ih =>
    obtain ⟨hc,hs⟩ := List.forall_mem_cons.mp hs
    exact (ih hs).plain hc

theorem Quoted.eq_of_plain (h : Quoted s t) (hs : Plain s) : t = s := by
  have hread := h.quoted []
  rw [quoted_of_plain hs] at hread
  exact (Prod.mk.inj (Option.some_inj.mp hread)).1.symm

end Strings

section Numbers

/-- The characters that numerals are made of. -/
def NumberChar (c : Char) : Prop := isDigit c = true ∨ c ∈ ['+','-','.','e','E']

instance (c : Char) : Decidable (NumberChar c) := inferInstanceAs (Decidable (_ ∨ _))

theorem isDigit_eq_false (h : ¬ NumberChar c) : isDigit c = false :=
  Bool.not_eq_true _ ▸ fun hdigit => h (Or.inl hdigit)

theorem head?_append_forall {P : Char → Prop} (hx : ∀ c ∈ x.head?, P c)
    (hs : ∀ c ∈ s.head?, P c) : ∀ c ∈ (x ++ s).head?, P c := by
  cases x with
  | nil => exact hs
  | cons d x => exact hx

theorem head?_forall {P : Char → Prop} (h : ∀ c ∈ x, P c) : ∀ c ∈ x.head?, P c :=
  fun c hc => h c (List.mem_of_mem_head? hc)

theorem digits_append (hx : ∀ c ∈ x, isDigit c = true) (hne : x ≠ []) {u : List Char}
    (hu : ∀ c ∈ u.head?, isDigit c = false) : digits (x ++ u) = some (x,u) := by
  have hstop : u.takeWhile isDigit = [] ∧ u.dropWhile isDigit = u := by
    cases u with
    | nil => exact ⟨rfl,rfl⟩
    | cons c u =>
      have hc := hu c rfl
      exact ⟨List.takeWhile_cons_of_neg (by simp [hc]),List.dropWhile_cons_of_neg (by simp [hc])⟩
  rw [digits,List.takeWhile_append_of_pos hx,List.dropWhile_append_of_pos hx,hstop.1,hstop.2,
    List.append_nil,if_neg hne]

theorem digits_reads (h : digits cs = some (x,rest)) :
    cs = x ++ rest ∧ (∀ c ∈ x, isDigit c = true) ∧ x ≠ [] := by
  rw [digits] at h
  split_ifs at h with hne
  cases h
  exact ⟨(List.takeWhile_append_dropWhile ..).symm,fun c hc => List.mem_takeWhile_imp hc,hne⟩

theorem isDigit_first (hx : ∀ c ∈ x, isDigit c = true) (hne : x ≠ []) {u : List Char} :
    ∀ c ∈ (x ++ u).head?, isDigit c = true := by
  obtain ⟨d,y,rfl⟩ := List.exists_cons_of_ne_nil hne
  intro c hc
  exact hx c (List.mem_of_mem_head? hc)

theorem sign_reads (signs cs : List Char) :
    cs = (sign signs cs).1 ++ (sign signs cs).2 ∧ (∀ c ∈ (sign signs cs).1, c ∈ signs) ∧
      ∀ u, (∀ c ∈ u.head?, c ∉ signs) →
        sign signs ((sign signs cs).1 ++ u) = ((sign signs cs).1,u) := by
  have hnone : ∀ u, (∀ c ∈ u.head?, c ∉ signs) → sign signs u = ([],u) := by
    intro u hu
    cases u with
    | nil => rfl
    | cons c u => rw [sign,if_neg (hu c rfl)]
  cases cs with
  | nil => exact ⟨rfl,fun c hc => absurd hc List.not_mem_nil,hnone⟩
  | cons c cs =>
    rw [sign]
    split_ifs with hc
    · refine ⟨rfl,?_,fun u _ => if_pos hc⟩
      intro d hd
      rwa [List.mem_singleton.mp hd]
    · exact ⟨rfl,fun d hd => absurd hd List.not_mem_nil,hnone⟩

theorem integer_reads (h : integer cs = some (x,rest)) :
    cs = x ++ rest ∧ (∀ c ∈ x, isDigit c = true) ∧ x ≠ [] ∧
      ∀ u, (∀ c ∈ u.head?, isDigit c = false) → integer (x ++ u) = some (x,u) := by
  cases cs with
  | nil => cases h
  | cons c cs =>
    rw [integer] at h
    split_ifs at h with hc
    · cases h
      subst hc
      exact ⟨rfl,List.forall_mem_singleton.mpr rfl,List.cons_ne_nil _ _,fun u _ => rfl⟩
    · obtain ⟨hcs,hx,hne⟩ := digits_reads h
      refine ⟨hcs,hx,hne,?_⟩
      intro u hu
      cases x with
      | nil => exact absurd rfl hne
      | cons d x =>
        obtain ⟨rfl,_⟩ := List.cons.inj hcs
        rw [List.cons_append,integer,if_neg hc,← List.cons_append]
        exact digits_append hx hne hu

theorem fraction_reads (h : fraction cs = some (x,rest)) :
    cs = x ++ rest ∧ (∀ c ∈ x, NumberChar c) ∧ (∀ c ∈ x.head?, c = '.') ∧
      ∀ u, (∀ c ∈ u.head?, isDigit c = false ∧ c ≠ '.') → fraction (x ++ u) = some (x,u) := by
  have hnone : ∀ u, (∀ c ∈ u.head?, isDigit c = false ∧ c ≠ '.') → fraction u = some ([],u) := by
    intro u hu
    cases u with
    | nil => rfl
    | cons c u => rw [fraction,if_neg (hu c rfl).2]
  cases cs with
  | nil =>
    cases h
    exact ⟨rfl,by simp,by simp,hnone⟩
  | cons c cs =>
    rw [fraction] at h
    split_ifs at h with hc
    · obtain ⟨⟨ds,rest'⟩,hds,he⟩ := Option.map_eq_some_iff.mp h
      cases he
      obtain ⟨rfl,hdigits,hne⟩ := digits_reads hds
      refine ⟨rfl,?_,fun d hd => by rw [← Option.some_inj.mp hd,hc],?_⟩
      · exact List.forall_mem_cons.mpr ⟨Or.inr (by rw [hc]; decide),fun d hd => Or.inl (hdigits d hd)⟩
      · intro u hu
        rw [List.cons_append,fraction,if_pos hc,digits_append hdigits hne (fun d hd => (hu d hd).1)]
        rfl
    · cases h
      exact ⟨rfl,by simp,by simp,hnone⟩

theorem exponent_reads (h : exponent cs = some (x,rest)) :
    cs = x ++ rest ∧ (∀ c ∈ x, NumberChar c) ∧ (∀ c ∈ x.head?, c = 'e' ∨ c = 'E') ∧
      ∀ u, (∀ c ∈ u.head?, ¬ NumberChar c) → exponent (x ++ u) = some (x,u) := by
  have hnone : ∀ u, (∀ c ∈ u.head?, ¬ NumberChar c) → exponent u = some ([],u) := by
    intro u hu
    cases u with
    | nil => rfl
    | cons c u =>
      rw [exponent,if_neg]
      rintro (rfl | rfl)
      · exact hu 'e' rfl (by decide)
      · exact hu 'E' rfl (by decide)
  cases cs with
  | nil =>
    cases h
    exact ⟨rfl,by simp,by simp,hnone⟩
  | cons c cs =>
    rw [exponent] at h
    split_ifs at h with hc
    · obtain ⟨⟨ds,rest'⟩,hds,he⟩ := Option.map_eq_some_iff.mp h
      obtain ⟨hcs,hsign,hread⟩ := sign_reads ['+','-'] cs
      obtain ⟨hrest,hdigits,hne⟩ := digits_reads hds
      cases he
      refine ⟨by rw [List.cons_append,List.append_assoc,← hrest,← hcs],?_,
        fun d hd => by rwa [← Option.some_inj.mp hd],?_⟩
      · refine List.forall_mem_cons.mpr ⟨?_,List.forall_mem_append.mpr ⟨?_,?_⟩⟩
        · rcases hc with rfl | rfl <;> decide
        · exact fun d hd => Or.inr (List.mem_append_left ['.','e','E'] (hsign d hd))
        · exact fun d hd => Or.inl (hdigits d hd)
      · intro u hu
        have hplain : ∀ d ∈ (ds ++ u).head?, d ∉ ['+','-'] := by
          intro d hd hmem
          have hdigit := isDigit_first hdigits hne d hd
          rcases List.mem_pair.mp hmem with rfl | rfl <;> cases hdigit
        have hstop : ∀ d ∈ u.head?, isDigit d = false :=
          fun d hd => isDigit_eq_false (hu d hd)
        rw [List.cons_append,List.append_assoc,exponent,if_pos hc,hread _ hplain]
        dsimp only
        rw [digits_append hdigits hne hstop]
        rfl
    · cases h
      exact ⟨rfl,by simp,by simp,hnone⟩

/-- A numeral that is read in front of anything but a character of numerals. -/
structure Numeral (x : List Char) : Prop where
  numberChar : ∀ c ∈ x, NumberChar c
  head : ∃ c s, x = c :: s ∧ (c = '-' ∨ isDigit c = true)
  reads : ∀ u, (∀ c ∈ u.head?, ¬ NumberChar c) → numeral (x ++ u) = some (x,u)

theorem numeral_reads (h : numeral cs = some (x,rest)) : cs = x ++ rest ∧ Numeral x := by
  simp only [numeral,Option.bind_eq_bind,Option.bind_eq_some_iff] at h
  obtain ⟨⟨int,afterInt⟩,hint,⟨frac,afterFrac⟩,hfrac,⟨exp,afterExp⟩,hexp,he⟩ := h
  cases he
  obtain ⟨hcs,hminus,hreadMinus⟩ := sign_reads ['-'] cs
  obtain ⟨hafter,hdigits,hne,hreadInt⟩ := integer_reads hint
  obtain ⟨rfl,hfracChar,hdot,hreadFrac⟩ := fraction_reads hfrac
  obtain ⟨rfl,hexpChar,hletter,hreadExp⟩ := exponent_reads hexp
  generalize (sign ['-'] cs).1 = minus at *
  refine ⟨by rw [hcs,hafter]; simp only [List.append_assoc],?_,?_,?_⟩
  · simp only [List.forall_mem_append]
    refine ⟨⟨⟨?_,fun c hc => Or.inl (hdigits c hc)⟩,hfracChar⟩,hexpChar⟩
    intro c hc
    rw [List.mem_singleton.mp (hminus c hc)]
    decide
  · cases minus with
    | nil =>
      obtain ⟨d,ds,rfl⟩ := List.exists_cons_of_ne_nil hne
      exact ⟨d,_,rfl,Or.inr (hdigits d List.mem_cons_self)⟩
    | cons c minus => exact ⟨c,_,rfl,Or.inl (List.mem_singleton.mp (hminus c List.mem_cons_self))⟩
  · intro u hu
    have hu' : ∀ c ∈ u.head?, isDigit c = false ∧ c ≠ '.' := by
      intro c hc
      refine ⟨isDigit_eq_false (hu c hc),?_⟩
      rintro rfl
      exact hu '.' hc (by decide)
    have hafterFrac : ∀ c ∈ (exp ++ u).head?, isDigit c = false ∧ c ≠ '.' := by
      refine head?_append_forall ?_ hu'
      intro c hc
      rcases hletter c hc with rfl | rfl <;> decide
    have hafterInt : ∀ c ∈ (frac ++ (exp ++ u)).head?, isDigit c = false := by
      refine head?_append_forall ?_ (fun c hc => (hafterFrac c hc).1)
      intro c hc
      rw [hdot c hc]
      decide
    have hplain : ∀ c ∈ (int ++ (frac ++ (exp ++ u))).head?, c ∉ ['-'] := by
      intro c hc hmem
      have hdigit := isDigit_first hdigits hne c hc
      rw [List.mem_singleton.mp hmem] at hdigit
      cases hdigit
    simp only [numeral,List.append_assoc,hreadMinus _ hplain,hreadInt _ hafterInt,
      hreadFrac _ hafterFrac,hreadExp u hu,Option.bind_eq_bind,Option.bind_some]

end Numbers

section Words
variable {v : Json}

/-- One of the three words. -/
inductive Word : Json → List Char → Prop
  | true : Word (bool true) ['t','r','u','e']
  | false : Word (bool false) ['f','a','l','s','e']
  | null : Word null ['n','u','l','l']

theorem word_eq_some_iff : word cs = some (v,rest) ↔ ∃ s, cs = s ++ rest ∧ Word v s := by
  constructor
  · intro h
    unfold word at h
    split at h
    · cases h
      exact ⟨_,rfl,.true⟩
    · cases h
      exact ⟨_,rfl,.false⟩
    · cases h
      exact ⟨_,rfl,.null⟩
    · cases h
  · rintro ⟨s,rfl,hs⟩
    cases hs <;> rfl

theorem word_eq_none (h : ∀ d ∈ cs.head?, d ≠ 't' ∧ d ≠ 'f' ∧ d ≠ 'n') : word cs = none := by
  unfold word
  split
  · exact absurd rfl (h 't' rfl).1
  · exact absurd rfl (h 'f' rfl).2.1
  · exact absurd rfl (h 'n' rfl).2.2
  · rfl

end Words
end Json
end Library
