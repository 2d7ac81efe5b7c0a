import Moboware.Library.Json

/-! # Strings pasted into JSON documents

A string that is pasted between two quotes is read back exactly when nothing in it
needs an escape. Otherwise it is cut at a quote inside it or shortened by an escape,
and the text read is no longer the text pasted.
-/
namespace Library
namespace Json

/-- What may stand in a string as itself. -/
def PlainChar (c : Char) : Prop := c ≠ '"' ∧ c ≠ '\\' ∧ 0x20 ≤ c.toNat

instance (c : Char) : Decidable (PlainChar c) := inferInstanceAs (Decidable (_ ∧ _))

def Plain (s : List Char) : Prop := ∀ c ∈ s, PlainChar c

instance (s : List Char) : Decidable (Plain s) := List.decidableBAll _ s

section Pasted
variable {c d : Char} {cs rest s t u raw : List Char} {fuel : ℕ}

theorem hexDigit_quote : hexDigit '"' = none := by decide

/-- What an escape reads, and that a quote read by it is the character it stands for. -/
def Escapes (raw : List Char) (d : Char) : Prop :=
  raw ≠ [] ∧ ('"' ∈ raw → raw = ['"'] ∧ d = '"')

theorem hex4_spec {n : ℕ} (h : hex4 cs = some (n,rest)) :
    ∃ raw, cs = raw ++ rest ∧ raw ≠ [] ∧ '"' ∉ raw := by
  match cs with
  | a :: b :: c :: d :: cs =>
    simp only [hex4,Option.bind_eq_bind,Option.bind_eq_some_iff,Option.some.injEq,
      Prod.mk.injEq] at h
    obtain ⟨x,ha,y,hb,z,hc,w,hd,_,rfl⟩ := h
    refine ⟨[a,b,c,d],rfl,by simp,?_⟩
    have hne : ∀ {e : Char} {v : ℕ}, hexDigit e = some v → '"' ≠ e := by
      rintro e v he rfl
      rw [hexDigit_quote] at he
      exact absurd he (by simp)
    simp only [List.mem_cons,List.not_mem_nil,or_false,not_or]
    exact ⟨hne ha,hne hb,hne hc,hne hd⟩
  | [] | [_] | [_,_] | [_,_,_] => simp [hex4] at h

theorem lowSurrogate_spec {high : ℕ} (h : lowSurrogate high cs = some (d,rest)) :
    ∃ raw, cs = raw ++ rest ∧ '"' ∉ raw := by
  unfold lowSurrogate at h
  split at h
  · next cs =>
    obtain ⟨⟨low,cs'⟩,hlow,hr⟩ := Option.bind_eq_some_iff.mp h
    obtain ⟨raw,hcs,_,hraw⟩ := hex4_spec hlow
    subst hcs
    dsimp only at hr
    split_ifs at hr
    · obtain ⟨_,hrest⟩ := Prod.mk.inj (Option.some.inj hr)
      subst hrest
      exact ⟨'\\' :: 'u' :: raw,rfl,by simpa using hraw⟩
  · cases h

theorem unicodeEscape_spec (h : unicodeEscape cs = some (d,rest)) :
    ∃ raw, cs = raw ++ rest ∧ '"' ∉ raw := by
  obtain ⟨⟨unit,cs'⟩,hunit,hr⟩ := Option.bind_eq_some_iff.mp h
  obtain ⟨raw,hcs,_,hraw⟩ := hex4_spec hunit
  subst hcs
  dsimp only at hr
  split_ifs at hr
  · obtain ⟨raw',rfl,hraw'⟩ := lowSurrogate_spec hr
    exact ⟨raw ++ raw',(List.append_assoc ..).symm,by simp [hraw,hraw']⟩
  · cases hr
    exact ⟨raw,rfl,hraw⟩

theorem simpleEscape_spec (h : simpleEscape c = some d) (hc : c = '"') : d = '"' := by
  subst hc
  simpa [simpleEscape] using h.symm

theorem escape_spec (h : escape cs = some (d,rest)) :
    ∃ raw, cs = raw ++ rest ∧ Escapes raw d := by
  cases cs with
  | nil => cases h
  | cons c cs =>
    rw [escape] at h
    split_ifs at h with hc
    · subst hc
      obtain ⟨raw,rfl,hraw⟩ := unicodeEscape_spec h
      exact ⟨'u' :: raw,rfl,by simp,fun hm => absurd hm (by simpa using hraw)⟩
    · obtain ⟨d',hd,he⟩ := Option.map_eq_some_iff.mp h
      cases he
      refine ⟨[c],rfl,by simp,fun hm => ?_⟩
      have hc' := (List.mem_singleton.mp hm).symm
      exact ⟨by rw [hc'],simpleEscape_spec hd hc'⟩

/-- What was read of a string: it is no shorter than its text, of one length with it
only when it is its text, and a quote inside it stands later than it does in the text. -/
structure Reads (raw t : List Char) : Prop where
  length_le : t.length ≤ raw.length
  plain : t.length = raw.length → t = raw ∧ Plain raw
  idxOf_lt : '"' ∈ raw → t.idxOf '"' < raw.idxOf '"'

theorem Reads.nil : Reads [] [] :=
  ⟨Nat.le_refl _,fun _ => ⟨rfl,fun _ hm => absurd hm List.not_mem_nil⟩,fun h => absurd h List.not_mem_nil⟩

theorem Reads.cons (h : Reads raw t) (hc : PlainChar c) : Reads (c :: raw) (c :: t) where
  length_le := Nat.succ_le_succ h.length_le
  plain he := by
    obtain ⟨rfl,hp⟩ := h.plain (Nat.succ.inj he)
    exact ⟨rfl,List.forall_mem_cons.mpr ⟨hc,hp⟩⟩
  idxOf_lt hm := by
    have hmem : '"' ∈ raw := (List.mem_cons.mp hm).resolve_left hc.1.symm
    rw [List.idxOf_cons_ne _ hc.1,List.idxOf_cons_ne _ hc.1]
    exact Nat.succ_lt_succ (h.idxOf_lt hmem)

theorem Reads.escape {e : List Char} (h : Reads raw t) (he : Escapes e d) :
    Reads ('\\' :: (e ++ raw)) (d :: t) := by
  have hpos : 0 < e.length := List.length_pos_iff.mpr he.1
  have hlen : ('\\' :: (e ++ raw)).length = e.length + raw.length + 1 := by simp
  refine ⟨?_,fun heq => ?_,fun hm => ?_⟩
  · rw [hlen,List.length_cons]
    have := h.length_le
    omega
  · rw [hlen,List.length_cons] at heq
    have := h.length_le
    omega
  · rw [List.idxOf_cons_ne _ (by decide : '\\' ≠ '"')]
    by_cases hq : '"' ∈ e
    · obtain ⟨rfl,rfl⟩ := he.2 hq
      rw [List.idxOf_cons_self]
      exact Nat.succ_pos _
    · have hraw : '"' ∈ raw := by
        rcases List.mem_cons.mp hm with hm | hm
        · exact absurd hm (by decide)
        · exact (List.mem_append.mp hm).resolve_left hq
      rw [List.idxOf_append_of_notMem hq]
      have hle : (d :: t).idxOf '"' ≤ t.idxOf '"' + 1 := by
        by_cases hd : d = '"'
        · rw [hd,List.idxOf_cons_self]
          exact Nat.zero_le _
        · exact Nat.le_of_eq (List.idxOf_cons_ne _ hd)
      have := h.idxOf_lt hraw
      omega

theorem quotedFrom_spec (h : quotedFrom fuel cs = some (t,rest)) :
    ∃ raw, cs = raw ++ '"' :: rest ∧ Reads raw t := by
  induction fuel generalizing cs t with
  | zero => cases h
  | succ fuel ih =>
    cases cs with
    | nil => cases h
    | cons c cs =>
      rw [quotedFrom] at h
      split_ifs at h with hquote hescape hcontrol
      · cases h
        exact ⟨[],by rw [hquote]; rfl,Reads.nil⟩
      · obtain ⟨⟨d,cs'⟩,he,h⟩ := Option.bind_eq_some_iff.mp h
        obtain ⟨⟨t',rest'⟩,ht,h⟩ := Option.bind_eq_some_iff.mp h
        cases h
        obtain ⟨e,rfl,hesc⟩ := escape_spec he
        obtain ⟨raw,rfl,hraw⟩ := ih ht
        exact ⟨'\\' :: (e ++ raw),by simp [hescape],hraw.escape hesc⟩
      · obtain ⟨⟨t',rest'⟩,ht,h⟩ := Option.bind_eq_some_iff.mp h
        cases h
        obtain ⟨raw,rfl,hraw⟩ := ih ht
        exact ⟨c :: raw,rfl,hraw.cons ⟨hquote,hescape,Nat.not_lt.mp hcontrol⟩⟩

theorem quotedFrom_of_plain (hs : Plain s) (hfuel : s.length < fuel) :
    quotedFrom fuel (s ++ '"' :: u) = some (s,u) := by
  induction s generalizing fuel with
  | nil =>
    obtain ⟨fuel,rfl⟩ := Nat.exists_eq_add_one.mpr hfuel
    simp [quotedFrom]
  | cons c s ih =>
    obtain ⟨fuel,rfl⟩ := Nat.exists_eq_add_one.mpr (Nat.zero_lt_of_lt hfuel)
    obtain ⟨hc,hs⟩ := List.forall_mem_cons.mp hs
    rw [List.cons_append,quotedFrom,if_neg hc.1,if_neg hc.2.1,if_neg (Nat.not_lt.mpr hc.2.2),
      ih hs (by simpa using hfuel)]
    rfl

theorem quoted_of_plain (hs : Plain s) : quoted (s ++ '"' :: u) = some (s,u) :=
  quotedFrom_of_plain hs (by rw [List.length_append,List.length_cons]; omega)

/-- A pasted string is read back exactly when nothing in it needs an escape, and then
the reading stops at the quote pasted after it. -/
theorem quoted_pasted_iff : quoted (s ++ '"' :: u) = some (s,rest) ↔ Plain s ∧ rest = u := by
  refine ⟨fun h => ?_,?_⟩
  · obtain ⟨raw,heq,hraw⟩ := quotedFrom_spec h
    rcases List.append_eq_append_iff.mp heq with ⟨w,hw,hu⟩ | ⟨w,hw,hu⟩
    · cases w with
      | nil =>
        rw [List.append_nil] at hw
        subst hw
        exact ⟨(hraw.plain rfl).2,((List.cons.inj hu).2).symm⟩
      | cons q w =>
        -- The string would end at a later quote, and the pasted one would be in its text.
        obtain ⟨rfl,rfl⟩ := List.cons.inj hu
        have hmem : '"' ∈ raw := by simp [hw]
        have hlt := hraw.idxOf_lt hmem
        rw [hw] at hlt
        exfalso
        by_cases hs : '"' ∈ s
        · rw [List.idxOf_append_of_mem hs] at hlt
          exact Nat.lt_irrefl _ hlt
        · rw [List.idxOf_append_of_notMem hs,List.idxOf_cons_self,Nat.add_zero] at hlt
          exact hs (List.idxOf_lt_length_iff.mp hlt)
    · have hle := hraw.length_le
      rw [hw,List.length_append] at hle
      have hnil : w = [] := List.length_eq_zero_iff.mp (by omega)
      subst hnil
      rw [List.append_nil] at hw
      subst hw
      exact ⟨(hraw.plain rfl).2,(List.cons.inj hu).2⟩
  · rintro ⟨hs,rfl⟩
    exact quoted_of_plain hs

end Pasted

section Documents
variable {c d : Char} {cs rest u : List Char} {key s t : String} {fuel : ℕ} {v : Json}
  {ms : List (String × Json)}

/-- A string between two quotes, with nothing in it escaped. -/
def pasted (s : String) (u : List Char) : List Char := '"' :: (s.toList ++ '"' :: u)

/-- A member whose key is pasted. -/
def keyed (key : String) (u : List Char) : List Char := pasted key (':' :: u)

theorem length_pasted : (pasted s u).length = s.toList.length + u.length + 2 := by
  simp only [pasted,List.length_cons,List.length_append]
  omega

theorem length_keyed : (keyed key u).length = key.toList.length + u.length + 3 := by
  rw [keyed,length_pasted,List.length_cons]
  omega

theorem token_self (hc : isSpace c = false) : token c (c :: cs) = some cs := by
  simp [token,skip,hc]

theorem token_of_ne (hd : isSpace d = false) (h : d ≠ c) : token c (d :: cs) = none := by
  simp [token,skip,hd,h]

@[simp] theorem token_pasted : token '"' (pasted s u) = some (s.toList ++ '"' :: u) := token_self rfl

@[simp] theorem token_pasted_of_ne (h : '"' ≠ c) : token c (pasted s u) = none := token_of_ne rfl h

theorem token_eq_none (hne : c ≠ d) (h : token c cs = some rest) : token d cs = none := by
  rw [token] at h ⊢
  split at h
  · cases h
  · split_ifs at h with hc
    rw [hc,if_neg hne]

theorem mem_of_token (h : token c cs = some rest) : c ∈ cs := by
  rw [token] at h
  split at h
  · cases h
  · next d ds hskip =>
    split_ifs at h with hd
    subst hd
    have hmem : d ∈ skip cs := by
      rw [hskip]
      exact List.mem_cons_self
    exact (List.dropWhile_sublist _).subset hmem

theorem value_pasted : value (fuel + 1) (pasted s u) =
    (quoted (s.toList ++ '"' :: u)).map (fun r => (string (String.ofList r.1),r.2)) := by
  rw [value,token_pasted_of_ne (by decide),token_pasted_of_ne (by decide)]
  rw [scalar,token_pasted]

theorem value_pasted_iff :
    value (fuel + 1) (pasted s u) = some (string s,rest) ↔ Plain s.toList ∧ rest = u := by
  rw [value_pasted,← quoted_pasted_iff,Option.map_eq_some_iff]
  constructor
  · rintro ⟨⟨t,cs⟩,ht,he⟩
    obtain ⟨hs,rfl⟩ := Prod.mk.inj he
    have ht' : t = s.toList := by rw [← string.inj hs,String.toList_ofList]
    rw [ht,ht']
  · exact fun h => ⟨_,h,by rw [String.ofList_toList]⟩

theorem value_pasted_of_plain (hs : Plain s.toList) (h : value (fuel + 1) (pasted s u) = some (v,rest)) :
    v = string s ∧ rest = u := by
  rw [value_pasted_iff.mpr ⟨hs,rfl⟩] at h
  obtain ⟨hv,hrest⟩ := Prod.mk.inj (Option.some.inj h)
  exact ⟨hv.symm,hrest.symm⟩

theorem value_keyed : value (fuel + 1) ('{' :: keyed key u) =
    (members fuel (keyed key u)).map (fun r => (object r.1,r.2)) := by
  rw [value,token_self rfl]
  simp only
  rw [keyed,token_pasted_of_ne (by decide)]

theorem value_keyed_iff : value (fuel + 1) ('{' :: keyed key u) = some (object ms,rest) ↔
    members fuel (keyed key u) = some (ms,rest) := by
  rw [value_keyed,Option.map_eq_some_iff]
  constructor
  · rintro ⟨_,h,he⟩
    cases he
    exact h
  · exact fun h => ⟨_,h,rfl⟩

/-- Only a text with a quote in it has a string as its value. -/
theorem mem_of_value_string (h : value fuel cs = some (string t,rest)) : '"' ∈ cs := by
  cases fuel with
  | zero => cases h
  | succ fuel =>
    rw [value] at h
    split at h
    · split at h
      · cases h
      · obtain ⟨r,_,he⟩ := Option.map_eq_some_iff.mp h
        cases he
    · split at h
      · cases h
      · obtain ⟨r,_,he⟩ := Option.map_eq_some_iff.mp h
        cases he
    · rw [scalar] at h
      split at h
      · next hquote => exact mem_of_token hquote
      · rcases Option.or_eq_some_iff.mp h with h | ⟨_,h⟩
        · unfold word at h
          split at h <;> cases h
        · obtain ⟨r,_,he⟩ := Option.map_eq_some_iff.mp h
          cases he

/-- The first member is the pasted key with the value that follows it; what comes next
decides whether there are more. -/
theorem members_keyed_iff (hkey : Plain key.toList) :
    members (fuel + 1) (keyed key cs) = some (ms,rest) ↔
      ∃ v cs' ms', value fuel cs = some (v,cs') ∧ ms = (key,v) :: ms' ∧
        ((∃ more, token ',' cs' = some more ∧ members fuel more = some (ms',rest)) ∨
          (token ',' cs' = none ∧ ms' = [] ∧ token '}' cs' = some rest)) := by
  have hquoted : quoted (key.toList ++ '"' :: ':' :: cs) = some (key.toList,':' :: cs) := quoted_of_plain hkey
  have hcolon : token ':' (':' :: cs) = some cs := token_self rfl
  rw [keyed,members,token_pasted]
  simp only [Option.bind_eq_bind,Option.bind_some,hquoted,hcolon,String.ofList_toList]
  rw [Option.bind_eq_some_iff]
  constructor
  · rintro ⟨⟨v,cs'⟩,hv,h⟩
    dsimp only at h
    split at h
    · next more hmore =>
      obtain ⟨⟨ms',rest'⟩,hms,he⟩ := Option.map_eq_some_iff.mp h
      cases he
      exact ⟨v,cs',ms',hv,rfl,Or.inl ⟨more,hmore,hms⟩⟩
    · next hmore =>
      obtain ⟨rest',hrest,he⟩ := Option.map_eq_some_iff.mp h
      cases he
      exact ⟨v,cs',[],hv,rfl,Or.inr ⟨hmore,rfl,hrest⟩⟩
  · rintro ⟨v,cs',ms',hv,rfl,⟨more,hmore,hms⟩ | ⟨hmore,rfl,hrest⟩⟩
    · exact ⟨(v,cs'),hv,by simp [hmore,hms]⟩
    · exact ⟨(v,cs'),hv,by simp [hmore,hrest]⟩

/-- A pasted member before a comma. -/
theorem members_pasted_comma_iff (hkey : Plain key.toList) :
    members (fuel + 2) (keyed key (pasted s (',' :: cs))) =
      some ((key,string s) :: ms,rest) ↔
    Plain s.toList ∧ members (fuel + 1) cs = some (ms,rest) := by
  have hcomma : token ',' (',' :: cs) = some cs := token_self rfl
  rw [members_keyed_iff hkey]
  constructor
  · rintro ⟨v,cs',ms',hv,he,h⟩
    obtain ⟨⟨-,rfl⟩,rfl⟩ := (List.cons.inj he).imp_left Prod.mk.inj
    obtain ⟨hs,rfl⟩ := value_pasted_iff.mp hv
    simp only [hcomma,Option.some.injEq,exists_eq_left',reduceCtorEq,false_and,or_false] at h
    exact ⟨hs,h⟩
  · rintro ⟨hs,h⟩
    exact ⟨_,_,ms,value_pasted_iff.mpr ⟨hs,rfl⟩,rfl,Or.inl ⟨cs,hcomma,h⟩⟩

theorem members_ne_nil (h : members fuel cs = some (ms,rest)) : ms ≠ [] := by
  cases fuel with
  | zero => cases h
  | succ fuel =>
    rw [members] at h
    simp only [Option.bind_eq_bind,Option.bind_eq_some_iff] at h
    obtain ⟨_,_,⟨key,_⟩,_,_,_,⟨v,_⟩,_,h⟩ := h
    dsimp only at h
    split at h <;> obtain ⟨_,_,he⟩ := Option.map_eq_some_iff.mp h <;> cases he <;> simp

/-- A value before the brace that closes the object. -/
theorem members_close_iff (hkey : Plain key.toList) :
    members (fuel + 1) (keyed key cs) = some ([(key,v)],rest) ↔
      ∃ cs', value fuel cs = some (v,cs') ∧ token '}' cs' = some rest := by
  rw [members_keyed_iff hkey]
  constructor
  · rintro ⟨v',cs',ms',hv,he,h⟩
    obtain ⟨⟨-,rfl⟩,rfl⟩ := (List.cons.inj he).imp_left Prod.mk.inj
    rcases h with ⟨_,_,h⟩ | ⟨_,_,h⟩
    · exact absurd rfl (members_ne_nil h)
    · exact ⟨cs',hv,h⟩
  · rintro ⟨cs',hv,h⟩
    exact ⟨v,cs',[],hv,rfl,Or.inr ⟨token_eq_none (by decide) h,rfl,h⟩⟩

theorem decode_eq_some_iff {text : String} : decode text = some v ↔
    ∃ rest, value (text.toList.length + 1) text.toList = some (v,rest) ∧ skip rest = [] := by
  rw [decode]
  split
  · next v' rest hv =>
    rw [hv]
    split_ifs with hrest <;> simp [hrest]
  · next hv => simp [hv]

/-- The fuel of `decode` is any amount up to the length of the text, and some more. -/
theorem decode_iff_of_le {text : String} (k : ℕ) (htext : text.toList = cs)
    (hk : k ≤ cs.length + 1) : ∃ n, ∀ v, decode text = some v ↔
      ∃ rest, value (n + k) cs = some (v,rest) ∧ skip rest = [] := by
  obtain ⟨n,hn⟩ := Nat.exists_eq_add_of_le' hk
  refine ⟨n,fun v => ?_⟩
  rw [decode_eq_some_iff,htext,hn]

end Documents

end Json
end Library
