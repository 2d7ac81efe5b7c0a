import Moboware.Library.JsonFront

/-! # Reading the configuration

`LoadConfig` gives the file to the parser line by line, without the ends of the lines, and
takes a line of which nothing is consumed for an error. The parser stops behind a document, and
what it leaves of a line is not looked at.
-/
namespace Moboware
open Library

/-- What is left of an open file, and whether a read has met its end. -/
structure IfStream where
  rest : List Char
  eof : Bool := false

namespace IfStream

/-- `std::getline`: the characters up to the next line break, which is dropped. -/
def getline (s : IfStream) : List Char × IfStream :=
  match s.rest.dropWhile (· ≠ '\n') with
  | [] => (s.rest.takeWhile (· ≠ '\n'),⟨[],true⟩)
  | _ :: rest => (s.rest.takeWhile (· ≠ '\n'),⟨rest,false⟩)

/-- The reads that are left, at most. -/
def size (s : IfStream) : ℕ := if s.eof then 0 else s.rest.length + 1

theorem size_getline_lt {s : IfStream} (h : s.eof = false) : s.getline.2.size < s.size := by
  have hsize : s.size = s.rest.length + 1 := by
    rw [size,h]
    rfl
  rw [hsize,getline]
  split
  · exact Nat.succ_pos _
  · next c rest hdrop =>
    have hle := (List.dropWhile_sublist (l := s.rest) (· ≠ '\n')).length_le
    rw [hdrop,List.length_cons] at hle
    change rest.length + 1 < _
    omega

end IfStream

/-- What is called of `json::stream_parser`. -/
structure JsonStreamParser (σ V : Type*) where
  init : σ
  writeSome : σ → List Char → σ × ℕ
  done : σ → Bool
  release : σ → V

def WellFormed (text : List Char) : Prop := (Json.decode (String.ofList text)).isSome = true

instance (text : List Char) : Decidable (WellFormed text) := inferInstanceAs (Decidable (_ = true))

theorem WellFormed.of_eq_some {text : List Char} {v : Json}
    (h : Json.decode (String.ofList text) = some v) : WellFormed text := by
  rw [WellFormed,h]
  rfl

theorem not_wellFormed_iff {text : List Char} :
    ¬ WellFormed text ↔ Json.decode (String.ofList text) = none :=
  Option.not_isSome_iff_eq_none

/-- The document of a text that is given in parts, once it is complete, and what stands behind it
and its white space. A number may go on as long as nothing stands behind it. -/
def completed (text : List Char) : Option (Json × List Char) :=
  match Json.front text with
  | some (.number _,[]) => none
  | some (v,rest) => some (v,Json.skip rest)
  | none => none

def behind (text : List Char) : List Char := ((completed text).map Prod.snd).getD []

/-- The text starts with a document, and the document is within the limits. -/
def Completes (limits : Json → Prop) (text : List Char) : Prop := ∃ d ∈ completed text, limits d.1

instance (limits : Json → Prop) [DecidablePred limits] (text : List Char) :
    Decidable (Completes limits text) := Option.decidableExistsMem (completed text)

/-- A document is read in parts, up to its end and the white space there; characters behind it are
ignored and not counted, and the parser stays done. What it is given of a document that breaks its
limits, on the nesting say, and what it takes of a part after it has stopped inside an earlier one,
is left open. -/
structure JsonStreamParser.Documented {σ V : Type*} (parser : JsonStreamParser σ V)
    (text : σ → List Char) (limits : Json → Prop) (build : Json → V) : Prop where
  text_init : text parser.init = []
  text_writeSome : ∀ s c, text (parser.writeSome s c).1 = text s ++ c
  consumed_le : ∀ s c, (parser.writeSome s c).2 ≤ c.length
  consumed_eq : ∀ s c more, Completes limits (text s ++ c ++ more) → behind (text s) = [] →
    (parser.writeSome s c).2 = c.length - (behind (text s ++ c)).length
  done_iff : ∀ s, parser.done s = true ↔ Completes limits (text s)
  release_eq : ∀ s v, parser.done s = true → Json.decode (String.ofList (text s)) = some v →
    parser.release s = build v

namespace Application
variable {σ V : Type*}

/-- The read loop; there is no result where it returns false. -/
def readLines (parser : JsonStreamParser σ V) (s : σ) (configStream : IfStream) : Option σ :=
  if h : configStream.eof = true then some s
  else
    let written := parser.writeSome s configStream.getline.1
    if written.2 = 0 then none else readLines parser written.1 configStream.getline.2
termination_by configStream.size
decreasing_by exact IfStream.size_getline_lt (Bool.not_eq_true _ ▸ h)

/-- The root document of an open file, up to where its members are read. -/
def loadConfig (parser : JsonStreamParser σ V) (content : List Char) : Option V :=
  match readLines parser parser.init ⟨content,false⟩ with
  | none => none
  | some s => if parser.done s then some (parser.release s) else none

/-- The loop over the lines of the file. -/
def writeLines (parser : JsonStreamParser σ V) : σ → List (List Char) → Option σ
  | s, [] => some s
  | s, line :: lines =>
    let written := parser.writeSome s line
    if written.2 = 0 then none else writeLines parser written.1 lines

/-- There is one line more than there are line breaks. -/
theorem readLines_eq (parser : JsonStreamParser σ V) (s : σ) (content : List Char) :
    readLines parser s ⟨content,false⟩ = writeLines parser s (content.splitOn '\n') := by
  induction h : content.length using Nat.strong_induction_on generalizing s content with
  | _ n ih =>
    subst h
    rw [readLines,dif_neg Bool.false_ne_true]
    have hsplit := List.takeWhile_append_dropWhile (p := (· ≠ '\n')) (l := content)
    have hline : '\n' ∉ content.takeWhile (· ≠ '\n') :=
      fun hmem => absurd (List.mem_takeWhile_imp hmem) (by decide)
    cases hdrop : content.dropWhile (· ≠ '\n') with
    | nil =>
      have hget : IfStream.getline ⟨content,false⟩ =
          (content.takeWhile (· ≠ '\n'),⟨[],true⟩) := by
        rw [IfStream.getline,hdrop]
      rw [hdrop,List.append_nil] at hsplit
      rw [hget,hsplit]
      rw [hsplit] at hline
      rw [List.splitOn_eq_singleton hline,writeLines]
      dsimp only
      rw [readLines,dif_pos rfl,writeLines]
    | cons c rest =>
      have hget : IfStream.getline ⟨content,false⟩ =
          (content.takeWhile (· ≠ '\n'),⟨rest,false⟩) := by
        rw [IfStream.getline,hdrop]
      have hc : c = '\n' := by
        have hstop := List.head?_dropWhile_not (· ≠ '\n') content
        rw [hdrop] at hstop
        exact not_not.mp (of_decide_eq_false hstop)
      have hlength : rest.length < content.length := by
        rw [← hsplit,hdrop,List.length_append,List.length_cons]
        omega
      rw [hget]
      dsimp only
      rw [ih rest.length hlength _ rest rfl]
      conv_rhs => rw [← hsplit,hdrop,hc,List.splitOn_append_cons_self_of_not_mem hline]
      rfl

/-- The parser behind some lines. -/
def feed (parser : JsonStreamParser σ V) (s : σ) (lines : List (List Char)) : σ :=
  lines.foldl (fun s line => (parser.writeSome s line).1) s

theorem writeLines_eq_none_iff (parser : JsonStreamParser σ V) (s : σ) (lines : List (List Char)) :
    writeLines parser s lines = none ↔ ∃ before line after, lines = before ++ line :: after ∧
      (parser.writeSome (feed parser s before) line).2 = 0 := by
  induction lines generalizing s with
  | nil => exact iff_of_false nofun (by rintro ⟨before,line,after,h,_⟩; cases before <;> cases h)
  | cons line lines ih =>
    rw [writeLines]
    split_ifs with hzero
    · exact iff_of_true rfl ⟨[],line,lines,rfl,hzero⟩
    · rw [ih]
      constructor
      · rintro ⟨before,line',after,rfl,h⟩
        exact ⟨line :: before,line',after,rfl,h⟩
      · rintro ⟨before,line',after,hlines,h⟩
        cases before with
        | nil =>
          obtain ⟨rfl,-⟩ := List.cons.inj hlines
          exact absurd h hzero
        | cons _ before =>
          obtain ⟨rfl,rfl⟩ := List.cons.inj hlines
          exact ⟨before,line',after,rfl,h⟩

theorem writeLines_eq_some {parser : JsonStreamParser σ V} {s s' : σ} {lines : List (List Char)}
    (h : writeLines parser s lines = some s') : s' = feed parser s lines := by
  induction lines generalizing s with
  | nil => exact (Option.some.inj h).symm
  | cons line lines ih =>
    rw [writeLines] at h
    split_ifs at h
    exact ih h

/-! ### The text of the lines -/

section Joined
variable {content : List Char} {limits : Json → Prop}

/-- The text of the lines, one behind the other. -/
def joined (content : List Char) : List Char := content.filter (· ≠ '\n')

def EmptyLine (content : List Char) : Prop := [] ∈ content.splitOn '\n'

instance (content : List Char) : Decidable (EmptyLine content) :=
  inferInstanceAs (Decidable ([] ∈ _))

theorem flatten_splitOn (content : List Char) : (content.splitOn '\n').flatten = joined content := by
  induction content with
  | nil => rfl
  | cons c content ih =>
    rw [List.splitOn_cons_eq_if_modifyHead,joined]
    split_ifs with hc
    · rw [List.filter_cons_of_neg (by simpa using hc),List.flatten_cons,List.nil_append,ih,joined]
    · obtain ⟨line,lines,hlines⟩ := List.exists_cons_of_ne_nil (List.splitOn_ne_nil '\n' content)
      rw [hlines,List.flatten_cons] at ih
      rw [List.filter_cons_of_pos (by simpa using hc),hlines,List.modifyHead_cons,List.flatten_cons,
        List.cons_append,ih,joined]

theorem keep_iff {c : Char} (h : decide (c ≠ '\n') = false) : Json.isSpace c = true ∧ c ≠ ' ' := by
  rw [decide_eq_false_iff_not,not_ne_iff] at h
  subst h
  decide

theorem emptyLine_append_break (content : List Char) : EmptyLine (content ++ ['\n']) := by
  rw [EmptyLine,List.splitOn_append_cons_self,List.splitOn_nil]
  exact List.mem_append_right _ List.mem_cons_self

/-- A file without an empty line does not end in a line break. -/
theorem joined_eq_nil_iff {front rest : List Char} (h : ¬ EmptyLine (front ++ rest)) :
    joined rest = [] ↔ rest = [] := by
  rcases List.eq_nil_or_concat rest with rfl | ⟨rest,c,rfl⟩
  · exact Iff.rfl
  · rw [List.concat_eq_append] at h ⊢
    have hc : c ≠ '\n' := by
      rintro rfl
      rw [← List.append_assoc] at h
      exact h (emptyLine_append_break _)
    rw [joined,List.filter_append,List.filter_singleton,decide_eq_true hc]
    simp

/-! ### The document of the text -/

variable {text more s : List Char} {v : Json}

theorem completed_of_ne_nil (h : Json.front text = some (v,s)) (hs : s ≠ []) :
    completed text = some (v,Json.skip s) := by
  obtain ⟨c,s,rfl⟩ := List.exists_cons_of_ne_nil hs
  rw [completed,h]
  cases v <;> rfl

/-- Once something stands behind the document, that is all that more text changes. -/
theorem behind_append (h : behind text ≠ []) : behind (text ++ more) = behind text ++ more := by
  cases hfront : Json.front text with
  | none =>
    rw [behind,completed,hfront] at h
    exact absurd rfl h
  | some d =>
    obtain ⟨v,rest⟩ := d
    by_cases hrest : rest = []
    · subst hrest
      rw [behind,completed,hfront] at h
      cases v <;> exact absurd rfl h
    · have hmore := Json.front_append hfront (fun hnil => absurd hnil hrest) more
      rw [behind,completed_of_ne_nil hfront hrest] at h
      rw [behind,behind,completed_of_ne_nil hfront hrest,
        completed_of_ne_nil hmore (List.append_ne_nil_of_left_ne_nil hrest _)]
      change Json.skip (rest ++ more) = Json.skip rest ++ more
      rw [Json.skip,List.dropWhile_append,if_neg]
      · rfl
      · rw [List.isEmpty_iff]
        exact h

theorem behind_of_append (h : behind (text ++ more) = []) : behind text = [] := by
  by_contra hne
  rw [behind_append hne] at h
  exact hne (List.append_eq_nil_iff.mp h).1

theorem front_of_decode (h : Json.decode (String.ofList content) = some v) :
    ∃ s, Json.front content = some (v,s) ∧ Json.Blank s := by
  obtain ⟨s,hfront,hs⟩ := Json.decode_eq_some_iff_front.mp h
  rw [String.toList_ofList] at hfront
  exact ⟨s,hfront,hs⟩

theorem behind_of_decode (h : Json.decode (String.ofList content) = some v) :
    behind content = [] := by
  obtain ⟨s,hfront,hs⟩ := front_of_decode h
  by_cases hnil : s = []
  · subst hnil
    rw [behind,completed,hfront]
    cases v <;> rfl
  · rw [behind,completed_of_ne_nil hfront hnil]
    exact Json.skip_eq_nil_iff.mpr hs

/-- The lines of a document are the document, when they are joined. -/
theorem decode_joined (h : Json.decode (String.ofList content) = some v) :
    Json.decode (String.ofList (joined content)) = some v :=
  Json.decode_filter (fun _ => keep_iff) h

/-- And it is complete when the file is, if there is nothing behind a last line break. -/
theorem completed_joined (h : Json.decode (String.ofList content) = some v)
    (hline : ¬ EmptyLine content) : completed (joined content) = completed content := by
  obtain ⟨s,hfront,hs⟩ := front_of_decode h
  have hjoined : Json.front (joined content) = some (v,joined s) :=
    Json.front_filter (fun _ => keep_iff) hfront hs
  obtain ⟨x,rfl,-⟩ := (Json.front_eq_some_iff (Json.follows_of_blank hs)).mp hfront
  have hnil : joined s = [] ↔ s = [] := joined_eq_nil_iff hline
  by_cases hs' : s = []
  · rw [completed,completed,hfront,hjoined,hnil.mpr hs',hs']
  · have hblank : Json.Blank (joined s) := hs.filter _
    rw [completed_of_ne_nil hfront hs',completed_of_ne_nil hjoined (mt hnil.mp hs'),
      Json.skip_eq_nil_iff.mpr hs,Json.skip_eq_nil_iff.mpr hblank]

end Joined

section Documented
variable {parser : JsonStreamParser σ V} {text : σ → List Char} {limits : Json → Prop}
variable {build : Json → V} {content : List Char}

theorem text_feed (h : parser.Documented text limits build) (s : σ) (lines : List (List Char)) :
    text (feed parser s lines) = text s ++ lines.flatten := by
  induction lines generalizing s with
  | nil => exact (List.append_nil _).symm
  | cons line lines ih =>
    rw [feed,List.foldl_cons,← feed,ih,h.text_writeSome,List.append_assoc,List.flatten_cons]

/-- A line of which nothing is taken: one that is not longer than what stands behind the document
with it, or a later one of which the parser takes nothing. -/
def Untaken (parser : JsonStreamParser σ V) (content : List Char) : Prop :=
  ∃ before line after, content.splitOn '\n' = before ++ line :: after ∧
    if behind before.flatten = [] then line.length ≤ (behind (before.flatten ++ line)).length
    else (parser.writeSome (feed parser parser.init before) line).2 = 0

theorem untaken_of_emptyLine (h : parser.Documented text limits build)
    (hline : EmptyLine content) : Untaken parser content := by
  obtain ⟨before,after,hsplit⟩ := List.append_of_mem hline
  refine ⟨before,[],after,hsplit,?_⟩
  split_ifs
  · exact Nat.zero_le _
  · exact Nat.le_zero.mp (h.consumed_le _ _)

/-- Nothing is left of a line as long as nothing stands behind the document. -/
theorem not_untaken (hline : ¬ EmptyLine content) (hbehind : behind (joined content) = []) :
    ¬ Untaken parser content := by
  rintro ⟨before,line,after,hsplit,htaken⟩
  rw [← flatten_splitOn,hsplit,List.flatten_append,List.flatten_cons,← List.append_assoc] at hbehind
  have hnext := behind_of_append hbehind
  rw [if_pos (behind_of_append hnext),hnext,List.length_nil,Nat.le_zero,
    List.length_eq_zero_iff] at htaken
  rw [EmptyLine,hsplit,htaken] at hline
  exact hline (List.mem_append_right _ List.mem_cons_self)

theorem writeLines_eq_none_iff_untaken (h : parser.Documented text limits build)
    (hcompletes : Completes limits (joined content)) :
    writeLines parser parser.init (content.splitOn '\n') = none ↔ Untaken parser content := by
  rw [writeLines_eq_none_iff]
  refine exists_congr (fun before => exists_congr (fun line => exists_congr (fun after => ?_)))
  refine and_congr_right (fun hsplit => ?_)
  have htext : text (feed parser parser.init before) = before.flatten := by
    rw [text_feed h,h.text_init,List.nil_append]
  split_ifs with hbehind
  · rw [← flatten_splitOn,hsplit,List.flatten_append,List.flatten_cons,← List.append_assoc,
      ← htext] at hcompletes
    rw [← htext] at hbehind
    rw [h.consumed_eq _ _ _ hcompletes hbehind,htext,Nat.sub_eq_zero_iff_le]
  · exact Iff.rfl

theorem loadConfig_eq_none_iff (h : parser.Documented text limits build) (content : List Char) :
    loadConfig parser content = none ↔
      Untaken parser content ∨ ¬ Completes limits (joined content) := by
  have hdone := h.done_iff (feed parser parser.init (content.splitOn '\n'))
  rw [text_feed h,h.text_init,List.nil_append,flatten_splitOn] at hdone
  rw [loadConfig,readLines_eq]
  by_cases hcompletes : Completes limits (joined content)
  · have hnone := writeLines_eq_none_iff_untaken h hcompletes
    rw [or_iff_left (not_not_intro hcompletes),← hnone]
    cases hwrite : writeLines parser parser.init (content.splitOn '\n') with
    | none => exact iff_of_true rfl rfl
    | some s =>
      dsimp only
      rw [writeLines_eq_some hwrite,if_pos (hdone.mpr hcompletes)]
      exact iff_of_false nofun nofun
  · refine iff_of_true ?_ (Or.inr hcompletes)
    cases hwrite : writeLines parser parser.init (content.splitOn '\n') with
    | none => rfl
    | some s =>
      dsimp only
      rw [writeLines_eq_some hwrite,if_neg (mt hdone.mp hcompletes)]

/-- What is accepted of a document is the document. -/
theorem loadConfig_eq_some (h : parser.Documented text limits build) {v : Json} {w : V}
    (hv : Json.decode (String.ofList (joined content)) = some v)
    (hw : loadConfig parser content = some w) : w = build v := by
  rw [loadConfig,readLines_eq] at hw
  split at hw
  · cases hw
  · next s hwrite =>
    split_ifs at hw with hdone
    rw [← Option.some.inj hw]
    refine h.release_eq s v hdone ?_
    rwa [writeLines_eq_some hwrite,text_feed h,h.text_init,List.nil_append,flatten_splitOn]

/-- A complete document without an empty line; or no document, and a line of which nothing is
taken, or lines that start with no complete document when they are joined. -/
def LinesAgree (parser : JsonStreamParser σ V) (limits : Json → Prop) (content : List Char) : Prop :=
  (WellFormed content ∧ ¬ EmptyLine content ∧ Completes limits content) ∨
    (¬ WellFormed content ∧ (Untaken parser content ∨ ¬ Completes limits (joined content)))

/-- The configuration is that of the whole text exactly of these files. -/
theorem loadConfig_eq_decode_iff (h : parser.Documented text limits build) (content : List Char) :
    loadConfig parser content = (Json.decode (String.ofList content)).map build ↔
      LinesAgree parser limits content := by
  have hnone := loadConfig_eq_none_iff h content
  cases hdecode : Json.decode (String.ofList content) with
  | none =>
    have hill := not_wellFormed_iff.mpr hdecode
    rw [LinesAgree,or_iff_right (fun hyes => hill hyes.1),and_iff_right hill]
    exact hnone
  | some v =>
    have hwell := WellFormed.of_eq_some hdecode
    have hjoined := decode_joined hdecode
    rw [LinesAgree,or_iff_left (fun hno => hno.1 hwell),and_iff_right hwell]
    by_cases hline : EmptyLine content
    · rw [hnone.mpr (Or.inl (untaken_of_emptyLine h hline))]
      exact iff_of_false nofun (fun hno => hno.1 hline)
    · have htaken : ¬ Untaken parser content := not_untaken hline (behind_of_decode hjoined)
      rw [or_iff_right htaken,Completes,completed_joined hdecode hline,← Completes] at hnone
      rw [and_iff_right hline]
      cases hload : loadConfig parser content with
      | none => exact iff_of_false nofun (hnone.mp hload)
      | some w =>
        rw [hload,loadConfig_eq_some h hjoined hload] at hnone
        rw [loadConfig_eq_some h hjoined hload]
        exact iff_of_true rfl (not_not.mp (mt hnone.mpr nofun))

end Documented

/-- A parser that keeps the text it is given. -/
def textParser : JsonStreamParser (List Char) Json where
  init := []
  writeSome s c := (s ++ c,if behind s = [] then c.length - (behind (s ++ c)).length else 0)
  done s := decide (Completes (fun _ => True) s)
  release s := (Json.decode (String.ofList s)).getD .null

theorem textParser_documented : textParser.Documented id (fun _ => True) id where
  text_init := rfl
  text_writeSome _ _ := rfl
  consumed_le s c := by
    change ite _ _ _ ≤ c.length
    split_ifs
    · exact Nat.sub_le _ _
    · exact Nat.zero_le _
  consumed_eq s c more _ hbehind := if_pos hbehind
  done_iff _ := decide_eq_true_iff
  release_eq s v _ h := by
    change (Json.decode (String.ofList s)).getD .null = v
    rw [show Json.decode (String.ofList s) = some v from h]
    rfl

/-- An array over two lines, and a number cut in two. -/
theorem loadConfig_eq_decode_iff_lines :
    loadConfig textParser "[1,\n2]".toList = (Json.decode "[1,\n2]").map id ∧
    loadConfig textParser "[1\n2]".toList ≠ (Json.decode "[1\n2]").map id := by
  refine ⟨(loadConfig_eq_decode_iff textParser_documented _).mpr (Or.inl (by decide)),fun h => ?_⟩
  rcases (loadConfig_eq_decode_iff textParser_documented _).mp h with hyes | ⟨-,hno⟩
  · exact absurd hyes.1 (by decide)
  · exact hno.elim (not_untaken (by decide) (by decide)) (not_not_intro (by decide))

/-- A document that ends in a line break is refused; an array without a comma and an object with
something behind it are accepted. -/
theorem loadConfig_not_decode :
    (WellFormed "\x7b\x7d\n".toList ∧ loadConfig textParser "\x7b\x7d\n".toList = none) ∧
    (¬ WellFormed "[1\n2]".toList ∧
      loadConfig textParser "[1\n2]".toList = some (.array [.number "12"])) ∧
    (¬ WellFormed "\x7b\x7d\n x".toList ∧
      (loadConfig textParser "\x7b\x7d\n x".toList).isSome = true) := by
  have hlast : loadConfig textParser "\x7b\x7d\n".toList = none :=
    (loadConfig_eq_none_iff textParser_documented _).mpr
      (Or.inl (untaken_of_emptyLine textParser_documented (by decide)))
  have hcut : writeLines textParser textParser.init ("[1\n2]".toList.splitOn '\n') =
      some "[12]".toList := by decide
  have hbehind : writeLines textParser textParser.init ("\x7b\x7d\n x".toList.splitOn '\n') =
      some "\x7b\x7d x".toList := by decide
  refine ⟨⟨by decide,hlast⟩,⟨by decide,?_⟩,by decide,?_⟩
  · rw [loadConfig,readLines_eq,hcut]
    dsimp only
    rw [if_pos (by decide)]
    rfl
  · rw [loadConfig,readLines_eq,hbehind]
    dsimp only
    rw [if_pos (by decide)]
    rfl

end Application

end Moboware
