import Mathlib.Data.List.Chain
import Mathlib.Logic.Relation
import Moboware.Library.JsonGrammar

/-! # The tokens of JSON texts

Strings with their raw text and the other characters one by one. In a document a string is
followed by white space, a comma, a colon, a closing bracket or nothing, so a member spelled
without white space is found in the tokens wherever its characters are in the text.
-/
namespace Library
namespace Json

/-- A string without its closing quote can only be the last token. -/
inductive Token
  | string (raw : List Char)
  | char (c : Char)
  | unclosed (raw : List Char)
  deriving DecidableEq

/-- Where a text is read: outside of strings, in one, or behind a backslash in one. -/
inductive Mode
  | outside
  | inside (raw : List Char)
  | escaped (raw : List Char)

def lex : Mode → List Char → List Token
  | .outside, [] => []
  | .inside raw, [] => [.unclosed raw]
  | .escaped raw, [] => [.unclosed (raw ++ ['\\'])]
  | .outside, c :: cs => if c = '"' then lex (.inside []) cs else .char c :: lex .outside cs
  | .inside raw, c :: cs =>
    if c = '"' then .string raw :: lex .outside cs
    else if c = '\\' then lex (.escaped raw) cs
    else lex (.inside (raw ++ [c])) cs
  | .escaped raw, c :: cs => lex (.inside (raw ++ ['\\',c])) cs

def tokens (cs : List Char) : List Token := lex .outside cs

variable {c : Char} {cs rest raw key s t x : List Char} {mode : Mode} {ts : List Token}

theorem tokens_cons (h : c ≠ '"') (cs : List Char) : tokens (c :: cs) = .char c :: tokens cs :=
  if_neg h

theorem lex_body (h : StringBody s) : lex (.inside raw) (s ++ '"' :: cs) =
    .string (raw ++ s) :: tokens cs := by
  induction h generalizing raw with
  | nil =>
    rw [List.nil_append,List.append_nil,lex,if_pos rfl]
    rfl
  | plain hc _ ih => rw [List.cons_append,lex,if_neg hc.1,if_neg hc.2.1,ih,List.append_assoc]; rfl
  | escaped _ _ ih =>
    rw [List.cons_append,List.cons_append,lex,if_neg (by decide),if_pos rfl,lex,ih,
      List.append_assoc]
    rfl

theorem tokens_string (h : StringBody raw) (cs : List Char) :
    tokens ('"' :: (raw ++ '"' :: cs)) = .string raw :: tokens cs := by
  rw [tokens,lex,if_pos rfl,lex_body h,List.nil_append]

/-- A character is part of the tokens in front of the rest or of what is read before it. -/
theorem exists_lex_cons (mode : Mode) (c : Char) : ∃ ts mode', ∀ cs,
    lex mode (c :: cs) = ts ++ lex mode' cs := by
  cases mode with
  | outside =>
    by_cases hc : c = '"'
    · exact ⟨[],.inside [],fun cs => if_pos hc⟩
    · exact ⟨[.char c],.outside,fun cs => if_neg hc⟩
  | inside raw =>
    by_cases hquote : c = '"'
    · exact ⟨[.string raw],.outside,fun cs => if_pos hquote⟩
    · by_cases hescape : c = '\\'
      · exact ⟨[],.escaped raw,fun cs => (if_neg hquote).trans (if_pos hescape)⟩
      · exact ⟨[],.inside (raw ++ [c]),fun cs => (if_neg hquote).trans (if_neg hescape)⟩
  | escaped raw => exact ⟨[],.inside (raw ++ ['\\',c]),fun _ => rfl⟩

section Spelling

def Token.written : Token → List Char
  | string raw => '"' :: (raw ++ ['"'])
  | char c => [c]
  | unclosed raw => '"' :: raw

def Mode.read : Mode → List Char
  | outside => []
  | inside raw => '"' :: raw
  | escaped raw => '"' :: (raw ++ ['\\'])

/-- The tokens are the whole text. -/
theorem flatMap_lex (mode : Mode) (cs : List Char) :
    (lex mode cs).flatMap Token.written = mode.read ++ cs := by
  induction cs generalizing mode with
  | nil => cases mode <;> simp [lex,Token.written,Mode.read]
  | cons c cs ih =>
    cases mode with
    | outside =>
      rw [lex]
      split_ifs with hc
      · rw [ih,hc]
        rfl
      · rw [List.flatMap_cons,ih]
        rfl
    | inside raw =>
      rw [lex]
      split_ifs with hquote hescape
      · rw [List.flatMap_cons,ih,hquote]
        simp [Token.written,Mode.read]
      · rw [ih,hescape]
        simp [Mode.read]
      · rw [ih]
        simp [Mode.read]
    | escaped raw =>
      rw [lex,ih]
      simp [Mode.read]

/-- A member spelled without white space, its value a string. -/
def spelling (key value : List Char) : List Char :=
  '"' :: (key ++ '"' :: ':' :: '"' :: (value ++ ['"']))

/-- The tokens of a member whose value is a string. -/
def memberTokens (key value : List Char) : List Token := [.string key,.char ':',.string value]

/-- Some member has the key, or a key that ends in it behind an escaped quote, and the value. -/
def HasMember (key value : List Char) (ts : List Token) : Prop :=
  ∃ raw, (raw = key ∨ '\\' :: '"' :: key <:+ raw) ∧ memberTokens raw value <:+: ts

theorem HasMember.append_left {value : List Char} (h : HasMember key value ts)
    (before : List Token) : HasMember key value (before ++ ts) := by
  obtain ⟨raw,hraw,hfound⟩ := h
  exact ⟨raw,hraw,List.infix_append_of_infix_right hfound⟩

theorem infix_of_hasMember {value : List Char} (h : HasMember key value (tokens cs)) :
    spelling key value <:+: cs := by
  obtain ⟨raw,hraw,before,after,hts⟩ := h
  have hcs := flatMap_lex .outside cs
  rw [← tokens,← hts,List.flatMap_append,List.flatMap_append] at hcs
  have hspelled : spelling raw value <:+: cs := by
    have hmember : (memberTokens raw value).flatMap Token.written = spelling raw value := by
      simp [memberTokens,spelling,Token.written]
    rw [hmember] at hcs
    exact ⟨_,_,hcs⟩
  refine List.IsInfix.trans ?_ hspelled
  rcases hraw with rfl | ⟨front,rfl⟩
  · exact List.infix_rfl
  · exact ⟨'"' :: (front ++ ['\\']),[],by simp [spelling]⟩

theorem tokens_spelling (hkey : Plain key) {value : List Char} (hvalue : Plain value)
    (cs : List Char) : lex (.inside raw) (key ++ '"' :: ':' :: '"' :: (value ++ '"' :: cs)) =
      memberTokens (raw ++ key) value ++ tokens cs := by
  rw [lex_body (stringBody_of_plain hkey),tokens_cons (by decide),
    tokens_string (stringBody_of_plain hvalue)]
  rfl

/-- Where the characters of a member are in a text, its first quote opens a string, is escaped
or closes a string, and then the key stands right behind it. -/
theorem hasMember_or_of_infix {value : List Char} (hkey : Plain (c :: key)) (hvalue : Plain value)
    (mode : Mode) (before after : List Char) :
    HasMember (c :: key) value (lex mode (before ++ (spelling (c :: key) value ++ after))) ∨
      ∃ raw, [.string raw,.char c] <:+:
        lex mode (before ++ (spelling (c :: key) value ++ after)) := by
  induction before generalizing mode with
  | nil =>
    have hspelling : [] ++ (spelling (c :: key) value ++ after) =
        '"' :: ((c :: key) ++ '"' :: ':' :: '"' :: (value ++ '"' :: after)) := by
      simp [spelling]
    rw [hspelling]
    cases mode with
    | outside =>
      refine Or.inl ⟨c :: key,Or.inl rfl,?_⟩
      rw [lex,if_pos rfl,tokens_spelling hkey hvalue]
      exact List.infix_append_left
    | inside raw =>
      refine Or.inr ⟨raw,?_⟩
      rw [lex,if_pos rfl,List.cons_append,lex,if_neg (hkey c List.mem_cons_self).1]
      exact ⟨[],_,rfl⟩
    | escaped raw =>
      refine Or.inl ⟨raw ++ ['\\','"'] ++ c :: key,Or.inr ⟨raw,by simp⟩,?_⟩
      rw [lex,tokens_spelling hkey hvalue]
      exact List.infix_append_left
  | cons d before ih =>
    obtain ⟨ts,mode',hlex⟩ := exists_lex_cons mode d
    rw [List.cons_append,hlex]
    rcases ih mode' with h | ⟨raw,h⟩
    · exact Or.inl (h.append_left ts)
    · exact Or.inr ⟨raw,List.infix_append_of_infix_right h⟩

end Spelling

section Documents
variable {v : Json} {p : Part}

/-- What may stand behind a string: white space, a comma, a colon or a closing bracket. -/
def Separates : Token → Prop
  | .char c => isSpace c = true ∨ c ∈ [',',':','}',']']
  | _ => False

instance : (t : Token) → Decidable (Separates t)
  | .char _ => inferInstanceAs (Decidable (_ ∨ _))
  | .string _ => inferInstanceAs (Decidable False)
  | .unclosed _ => inferInstanceAs (Decidable False)

def Separated (ts : List Token) : Prop :=
  List.IsChain (fun a b => ∀ raw, a = .string raw → Separates b) ts

/-- A text may stand here: what is behind it neither is no separator nor has such. -/
def Continues (cs : List Char) : Prop :=
  (∀ t ∈ (tokens cs).head?, Separates t) ∧ Separated (tokens cs)

theorem separated_cons (hc : c ≠ '"') (h : Separated (tokens cs)) : Separated (tokens (c :: cs)) := by
  rw [tokens_cons hc]
  exact List.IsChain.cons h (fun _ _ _ he => absurd he Token.noConfusion)

theorem separated_append (hs : '"' ∉ s) (h : Separated (tokens cs)) :
    Separated (tokens (s ++ cs)) := by
  induction s with
  | nil => exact h
  | cons c s ih =>
    rw [List.mem_cons,not_or] at hs
    exact separated_cons (Ne.symm hs.1) (ih hs.2)

theorem separated_string (hraw : StringBody raw) (h : Continues cs) :
    Separated (tokens ('"' :: (raw ++ '"' :: cs))) := by
  rw [tokens_string hraw]
  exact List.IsChain.cons h.2 (fun t ht _ _ => h.1 t ht)

theorem quote_not_mem_of_blank (hs : Blank s) : '"' ∉ s :=
  fun hmem => absurd (hs _ hmem) (by decide)

/-- White space that is there comes first. -/
theorem blank_eq_nil_or {a : Token} (hs : Blank s) (h : a ∈ (tokens (s ++ cs)).head?) :
    s = [] ∨ ∃ c, isSpace c = true ∧ a = .char c := by
  cases s with
  | nil => exact Or.inl rfl
  | cons c s =>
    have hquote := quote_not_mem_of_blank hs
    rw [List.mem_cons,not_or] at hquote
    rw [List.cons_append,tokens_cons (Ne.symm hquote.1)] at h
    exact Or.inr ⟨c,hs c List.mem_cons_self,(Option.some_inj.mp h).symm⟩

theorem continues_blank (hs : Blank s) (h : Continues cs) : Continues (s ++ cs) := by
  refine ⟨?_,separated_append (quote_not_mem_of_blank hs) h.2⟩
  intro a ha
  rcases blank_eq_nil_or hs ha with rfl | ⟨c,hc,rfl⟩
  · exact h.1 a ha
  · exact Or.inl hc

theorem continues_cons (hc : c ∈ [',',':','}',']']) (h : Separated (tokens cs)) :
    Continues (c :: cs) := by
  have hne : c ≠ '"' := by
    rintro rfl
    exact absurd hc (by decide)
  refine ⟨?_,separated_cons hne h⟩
  intro t ht
  rw [tokens_cons hne] at ht
  rw [← Option.some_inj.mp ht]
  exact Or.inr hc

theorem Scalar.separated (h : Scalar v x) (hcs : Continues cs) : Separated (tokens (x ++ cs)) := by
  cases h with
  | string hraw =>
    rw [List.cons_append,List.append_assoc]
    exact separated_string hraw.body hcs
  | word hword =>
    refine separated_append ?_ hcs.2
    cases hword <;> decide
  | number hn =>
    refine separated_append ?_ hcs.2
    exact fun hmem => absurd (hn.numberChar _ hmem) (by decide)

theorem separated_memberText (hs : Blank s) {key : List Char} (hkey : Quoted raw key)
    (ht : Blank t) (h : Separated (tokens cs)) : Separated (tokens (memberText s raw t cs)) := by
  refine separated_append (quote_not_mem_of_blank hs) (separated_string hkey.body ?_)
  exact continues_blank ht (continues_cons (by decide) h)

/-- Every rule of the grammar puts a separator behind a value. -/
theorem Spells.separated (h : Spells p x) (hcs : Continues cs) :
    Separated (tokens (x ++ cs)) := by
  induction h generalizing cs with
  | scalar hs h =>
    rw [List.append_assoc]
    exact separated_append (quote_not_mem_of_blank hs) (h.separated hcs)
  | emptyObject hs ht | emptyArray hs ht =>
    rw [List.append_assoc,List.cons_append,List.append_assoc]
    refine separated_append (quote_not_mem_of_blank hs) (separated_cons (by decide) ?_)
    exact separated_append (quote_not_mem_of_blank ht) (separated_cons (by decide) hcs.2)
  | object hs _ ih | array hs _ ih =>
    rw [List.append_assoc,List.cons_append]
    exact separated_append (quote_not_mem_of_blank hs) (separated_cons (by decide) (ih hcs))
  | lastMember hs hkey ht _ he ih =>
    rw [memberText_append,memberText_append,List.append_assoc,List.append_assoc]
    refine separated_memberText hs hkey ht (ih (continues_blank he ?_))
    exact continues_cons (by decide) hcs.2
  | member hs hkey ht _ he _ ih ihMore =>
    rw [memberText_append,memberText_append,List.append_assoc,List.append_assoc]
    refine separated_memberText hs hkey ht (ih (continues_blank he ?_))
    exact continues_cons (by decide) (ihMore hcs)
  | lastElement _ he ih =>
    rw [List.append_assoc,List.append_assoc]
    exact ih (continues_blank he (continues_cons (by decide) hcs.2))
  | element _ he _ ih ihMore =>
    rw [List.append_assoc,List.append_assoc]
    exact ih (continues_blank he (continues_cons (by decide) (ihMore hcs)))

theorem separated_of_decode (h : decode (String.ofList cs) = some v) : Separated (tokens cs) := by
  obtain ⟨x,s,hcs,hx,hs⟩ := decode_eq_some_iff_spells.mp h
  rw [String.toList_ofList] at hcs
  have hend : Continues ([] : List Char) := ⟨fun _ ht => absurd ht (by simp [tokens,lex]),.nil⟩
  have hblank := continues_blank hs hend
  rw [List.append_nil] at hblank
  rw [hcs]
  exact hx.separated hblank

/-- In a document the characters of a member stand where such a member is. -/
theorem infix_spelling_iff {value : List Char} (hkey : Plain (c :: key)) (hvalue : Plain value)
    (hc : ¬ Separates (.char c)) (h : decode (String.ofList cs) = some v) :
    spelling (c :: key) value <:+: cs ↔ HasMember (c :: key) value (tokens cs) := by
  refine ⟨?_,infix_of_hasMember⟩
  rintro ⟨before,after,rfl⟩
  rw [List.append_assoc] at h ⊢
  rcases hasMember_or_of_infix hkey hvalue .outside before after with hmember | ⟨raw,hfound⟩
  · exact hmember
  · have hchain := List.IsChain.infix (separated_of_decode h) hfound
    exact absurd ((List.isChain_cons_cons.mp hchain).1 raw rfl) hc

end Documents

section Members
variable {v : Json} {p : Part} {value u : List Char} {m : String × Json}

/-- A member of an object at any depth of a part. -/
inductive Occurs (m : String × Json) : Part → Prop
  | here {ms : List (String × Json)} : m ∈ ms → Occurs m (.members ms)
  | member {ms : List (String × Json)} {key : String} {v : Json} : (key,v) ∈ ms →
      Occurs m (.value v) → Occurs m (.members ms)
  | element {vs : List Json} {v : Json} : v ∈ vs → Occurs m (.value v) → Occurs m (.elements vs)
  | object {ms : List (String × Json)} : Occurs m (.members ms) → Occurs m (.value (object ms))
  | array {vs : List Json} : Occurs m (.elements vs) → Occurs m (.value (array vs))

theorem Occurs.tail {ms : List (String × Json)} {n : String × Json} (h : Occurs m (.members ms)) :
    Occurs m (.members (n :: ms)) := by
  cases h with
  | here h => exact .here (List.mem_cons_of_mem _ h)
  | member hn h => exact .member (List.mem_cons_of_mem _ hn) h

theorem Occurs.tail_elements {vs : List Json} (h : Occurs m (.elements vs)) :
    Occurs m (.elements (v :: vs)) := by
  cases h with
  | element hv h => exact .element (List.mem_cons_of_mem _ hv) h

/-- A member whose key and value are so spelled. -/
def OccursSpelled (raw value : List Char) (p : Part) : Prop :=
  ∃ key text, Quoted raw key ∧ Quoted value text ∧
    Occurs (String.ofList key,string (String.ofList text)) p

theorem memberTokens_infix_cons_iff :
    memberTokens key value <:+: .char c :: ts ↔ memberTokens key value <:+: ts := by
  rw [List.infix_cons_iff]
  refine or_iff_right ?_
  rintro ⟨after,hafter⟩
  exact absurd (List.cons.inj hafter).1 Token.noConfusion

theorem memberTokens_infix_chars (hs : '"' ∉ s) :
    memberTokens key value <:+: tokens (s ++ cs) ↔ memberTokens key value <:+: tokens cs := by
  induction s with
  | nil => exact Iff.rfl
  | cons c s ih =>
    rw [List.mem_cons,not_or] at hs
    rw [List.cons_append,tokens_cons (Ne.symm hs.1),memberTokens_infix_cons_iff]
    exact ih hs.2

theorem memberTokens_infix_blank_cons (hs : Blank s) (hc : c ≠ '"') :
    memberTokens key value <:+: tokens (s ++ c :: cs) ↔ memberTokens key value <:+: tokens cs := by
  rw [memberTokens_infix_chars (quote_not_mem_of_blank hs),tokens_cons hc,
    memberTokens_infix_cons_iff]

/-- White space puts no colon first. -/
theorem colon_not_first (hs : Blank s) (h : .char ':' ∉ (tokens cs).head?) :
    .char ':' ∉ (tokens (s ++ cs)).head? := by
  intro hmem
  rcases blank_eq_nil_or hs hmem with rfl | ⟨c,hc,he⟩
  · exact h hmem
  · rw [← Token.char.inj he] at hc
    exact absurd hc (by decide)

theorem colon_not_first_cons (hs : Blank s) (hc : c ∈ [',','}',']']) :
    .char ':' ∉ (tokens (s ++ c :: cs)).head? := by
  have hne : c ≠ '"' ∧ c ≠ ':' := by
    constructor <;> rintro rfl <;> exact absurd hc (by decide)
  refine colon_not_first hs ?_
  rw [tokens_cons hne.1]
  exact fun hmem => hne.2 (Token.char.inj (Option.some_inj.mp hmem))

theorem head_ne_string (hc : c ≠ '"') (cs : List Char) :
    (tokens (c :: cs)).head? ≠ some (.string value) := by
  rw [tokens_cons hc]
  exact fun he => Token.noConfusion (Option.some_inj.mp he)

theorem blank_eq_nil (hs : Blank s) (h : (tokens (s ++ cs)).head? = some (.string value)) :
    s = [] :=
  (blank_eq_nil_or hs h).resolve_right (fun ⟨_,_,he⟩ => Token.noConfusion he)

/-- Only the text of a string starts with a string. -/
theorem Spells.eq_string (h : Spells (.value v) x)
    (hhead : (tokens (x ++ u)).head? = some (.string value)) :
    ∃ text, Quoted value text ∧ v = string (String.ofList text) := by
  cases h with
  | scalar hs h =>
    rw [List.append_assoc] at hhead
    rw [blank_eq_nil hs hhead,List.nil_append] at hhead
    cases h with
    | @string raw text hraw =>
      rw [List.cons_append,List.append_assoc,List.singleton_append,tokens_string hraw.body] at hhead
      rw [← Token.string.inj (Option.some_inj.mp hhead)]
      exact ⟨text,hraw,rfl⟩
    | word hword => cases hword <;> exact absurd hhead (head_ne_string (by decide) _)
    | number hn =>
      obtain ⟨c,y,rfl,hc⟩ := hn.head
      refine absurd hhead (head_ne_string ?_ _)
      rintro rfl
      exact absurd hc (by decide)
  | emptyObject hs _ | object hs _ | emptyArray hs _ | array hs _ =>
    rw [List.append_assoc] at hhead
    rw [blank_eq_nil hs hhead] at hhead
    exact absurd hhead (head_ne_string (by decide) _)

theorem memberTokens_infix_string_iff : memberTokens key value <:+: .string raw :: ts ↔
    (key = raw ∧ [.char ':',.string value] <+: ts) ∨ memberTokens key value <:+: ts := by
  rw [List.infix_cons_iff,memberTokens,List.cons_prefix_cons,Token.string.injEq]

/-- A member of a text is the first one or behind its colon. -/
theorem memberTokens_infix_memberText (hs : Blank s) {text : List Char} (hkey : Quoted raw text)
    (ht : Blank t) (hx : Spells (.value v) x)
    (h : memberTokens key value <:+: tokens (memberText s raw t (x ++ u))) :
    (key = raw ∧ ∃ text, Quoted value text ∧ v = string (String.ofList text)) ∨
      memberTokens key value <:+: tokens (x ++ u) := by
  rw [memberText,memberTokens_infix_chars (quote_not_mem_of_blank hs),tokens_string hkey.body,
    memberTokens_infix_string_iff] at h
  rcases h with ⟨hraw,after,hafter⟩ | h
  · refine Or.inl ⟨hraw,?_⟩
    have hcolon : (tokens (t ++ ':' :: (x ++ u))).head? = some (.char ':') := by
      rw [← hafter]
      rfl
    have hnil : t = [] := by
      refine (blank_eq_nil_or ht hcolon).resolve_right ?_
      rintro ⟨c,hc,he⟩
      rw [← Token.char.inj he] at hc
      exact absurd hc (by decide)
    rw [hnil,List.nil_append,tokens_cons (by decide)] at hafter
    refine hx.eq_string (u := u) ?_
    rw [← (List.cons.inj hafter).2]
    rfl
  · exact Or.inr ((memberTokens_infix_blank_cons ht (by decide)).mp h)

theorem OccursSpelled.imp {q : Part} (h : OccursSpelled key value p)
    (himp : ∀ m, Occurs m p → Occurs m q) : OccursSpelled key value q := by
  obtain ⟨k,text,hk,htext,h⟩ := h
  exact ⟨k,text,hk,htext,himp _ h⟩

section Behind
variable {e : List Char} (he : Blank e) (hc : c ∈ [',','}',']'])
  (ih : ∀ {u}, .char ':' ∉ (tokens u).head? → memberTokens key value <:+: tokens (x ++ u) →
    OccursSpelled key value (.value v) ∨ memberTokens key value <:+: tokens u)
include he hc ih

/-- What is true of the text of a value with the rest behind it is true with a comma or a
bracket between them. -/
theorem occurs_or_of_value (h : memberTokens key value <:+: tokens (x ++ (e ++ c :: u))) :
    OccursSpelled key value (.value v) ∨ memberTokens key value <:+: tokens u := by
  have hquote : c ≠ '"' := by
    rintro rfl
    exact absurd hc (by decide)
  rw [← memberTokens_infix_blank_cons he hquote]
  exact ih (colon_not_first_cons he hc) h

theorem occurs_or_of_memberText {ms : List (String × Json)} {text : List Char} (hs : Blank s)
    (hkey : Quoted raw text) (ht : Blank t) (hx : Spells (.value v) x)
    (h : memberTokens key value <:+: tokens (memberText s raw t (x ++ (e ++ c :: u)))) :
    OccursSpelled key value (.members ((String.ofList text,v) :: ms)) ∨
      memberTokens key value <:+: tokens u := by
  rcases memberTokens_infix_memberText hs hkey ht hx h with ⟨rfl,text',htext,rfl⟩ | h
  · exact Or.inl ⟨text,text',hkey,htext,.here List.mem_cons_self⟩
  · refine (occurs_or_of_value he hc ih h).imp_left (fun h => h.imp ?_)
    exact fun _ => .member List.mem_cons_self

end Behind

/-- The tokens of a member are those of one that occurs in the part, or come behind it. -/
theorem Spells.occurs_or (h : Spells p x) (hu : .char ':' ∉ (tokens u).head?)
    (hfound : memberTokens key value <:+: tokens (x ++ u)) :
    OccursSpelled key value p ∨ memberTokens key value <:+: tokens u := by
  induction h generalizing u with
  | scalar hs h =>
    rw [List.append_assoc,memberTokens_infix_chars (quote_not_mem_of_blank hs)] at hfound
    cases h with
    | string hraw =>
      rw [List.cons_append,List.append_assoc,List.singleton_append,tokens_string hraw.body,
        memberTokens_infix_string_iff] at hfound
      rcases hfound with ⟨_,after,hafter⟩ | h
      · exact absurd (by rw [← hafter]; rfl) hu
      · exact Or.inr h
    | word hword =>
      rw [memberTokens_infix_chars (by cases hword <;> decide)] at hfound
      exact Or.inr hfound
    | number hn =>
      have hquote : '"' ∉ _ := fun hmem => absurd (hn.numberChar _ hmem) (by decide)
      rw [memberTokens_infix_chars hquote] at hfound
      exact Or.inr hfound
  | emptyObject hs ht | emptyArray hs ht =>
    rw [List.append_assoc,List.cons_append,memberTokens_infix_blank_cons hs (by decide),
      List.append_assoc,List.singleton_append,
      memberTokens_infix_blank_cons ht (by decide)] at hfound
    exact Or.inr hfound
  | object hs _ ih =>
    rw [List.append_assoc,List.cons_append,memberTokens_infix_blank_cons hs (by decide)] at hfound
    exact (ih hu hfound).imp_left (fun h => h.imp (fun _ => .object))
  | array hs _ ih =>
    rw [List.append_assoc,List.cons_append,memberTokens_infix_blank_cons hs (by decide)] at hfound
    exact (ih hu hfound).imp_left (fun h => h.imp (fun _ => .array))
  | lastMember hs hkey ht hx he ih =>
    rw [memberText_append,memberText_append,List.append_assoc,List.append_assoc,
      List.singleton_append] at hfound
    exact occurs_or_of_memberText he (by decide) ih hs hkey ht hx hfound
  | member hs hkey ht hx he _ ih ihMore =>
    rw [memberText_append,memberText_append,List.append_assoc,List.append_assoc,
      List.cons_append] at hfound
    rcases occurs_or_of_memberText he (by decide) ih hs hkey ht hx hfound with h | h
    · exact Or.inl h
    · exact (ihMore hu h).imp_left (fun h => h.imp (fun _ => .tail))
  | lastElement _ he ih =>
    rw [List.append_assoc,List.append_assoc,List.singleton_append] at hfound
    refine (occurs_or_of_value he (by decide) ih hfound).imp_left (fun h => h.imp ?_)
    exact fun _ => .element List.mem_cons_self
  | element _ he _ ih ihMore =>
    rw [List.append_assoc,List.append_assoc,List.cons_append] at hfound
    rcases occurs_or_of_value he (by decide) ih hfound with h | h
    · exact Or.inl (h.imp (fun _ => .element List.mem_cons_self))
    · exact (ihMore hu h).imp_left (fun h => h.imp (fun _ => .tail_elements))

/-- Tokens of a member in a document are those of a member in it. -/
theorem occurs_of_memberTokens (h : decode (String.ofList cs) = some v)
    (hfound : memberTokens key value <:+: tokens cs) : OccursSpelled key value (.value v) := by
  obtain ⟨x,s,hcs,hx,hs⟩ := decode_eq_some_iff_spells.mp h
  rw [String.toList_ofList] at hcs
  have hend : ¬ memberTokens key value <:+: tokens s := by
    rw [← List.append_nil s,memberTokens_infix_chars (quote_not_mem_of_blank hs)]
    exact fun hnil => absurd (List.infix_nil.mp hnil) (List.cons_ne_nil _ _)
  rw [hcs] at hfound
  refine (hx.occurs_or ?_ hfound).resolve_right hend
  rw [← List.append_nil s]
  exact colon_not_first hs (fun hnil => absurd hnil (by simp [tokens,lex]))

end Members

section Spaces

/-- White space between two tokens that are no colons is put in. -/
inductive Spaced : List Token → List Token → Prop
  | insert {a b : List Token} {c : Char} : isSpace c = true → .char ':' ∉ a.getLast? →
      .char ':' ∉ b.head? → Spaced (a ++ b) (a ++ .char c :: b)

variable {a b s' : List Token} {value : List Char}

/-- The tokens of a member do not go over a place that has no colon next to it. -/
theorem memberTokens_infix_append_iff (ha : .char ':' ∉ a.getLast?) (hb : .char ':' ∉ b.head?) :
    memberTokens key value <:+: a ++ b ↔
      memberTokens key value <:+: a ∨ memberTokens key value <:+: b := by
  rw [List.infix_append_iff_ne_nil]
  refine or_congr Iff.rfl (or_iff_left ?_)
  rintro ⟨l,r,hl,hr,hsplit,⟨front,rfl⟩,⟨back,rfl⟩⟩
  match l with
  | [] => exact hl rfl
  | [x] =>
    obtain ⟨_,rfl⟩ := List.cons.inj hsplit
    exact hb rfl
  | x :: y :: l =>
    obtain ⟨_,hrest⟩ := List.cons.inj hsplit
    obtain ⟨rfl,hlast⟩ := List.cons.inj hrest
    cases l with
    | nil =>
      exact ha (by simp)
    | cons z l =>
      obtain ⟨_,hnil⟩ := List.cons.inj hlast
      exact hr (List.append_eq_nil_iff.mp hnil.symm).2

theorem Spaced.hasMember_iff (h : Spaced ts s') :
    HasMember key value ts ↔ HasMember key value s' := by
  cases h with
  | @insert a b c hc ha hb =>
    have hspace : .char ':' ∉ (.char c :: b : List Token).head? := by
      intro hmem
      rw [Token.char.inj (Option.some_inj.mp hmem)] at hc
      exact absurd hc (by decide)
    refine exists_congr (fun raw => and_congr_right' ?_)
    rw [memberTokens_infix_append_iff ha hb,memberTokens_infix_append_iff ha hspace,
      memberTokens_infix_cons_iff]

/-- Texts that differ in white space away from their colons have the same members. -/
theorem hasMember_iff_of_spaced (h : Relation.EqvGen Spaced ts s') :
    HasMember key value ts ↔ HasMember key value s' := by
  induction h with
  | rel _ _ h => exact h.hasMember_iff
  | refl _ => exact Iff.rfl
  | symm _ _ _ ih => exact ih.symm
  | trans _ _ _ _ _ ih ih' => exact ih.trans ih'

end Spaces
end Json
end Library
