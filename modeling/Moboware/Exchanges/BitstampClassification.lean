import Moboware.Library.JsonTokens
import Moboware.Exchanges.BitstampStreamParser

/-! # The type of a Bitstamp stream

The constructor looks for the characters of a member in the text, so the member may be at any
depth, and must be spelled as they are.
-/
namespace Moboware
open Library
variable {Double : Type*} [Zero Double]

namespace BitstampStreamParser
open Json

/-- The key `event` as it may be spelled: behind an escaped quote it is the end of a key. -/
def SpelledEvent (raw : List Char) : Prop :=
  raw = "event".toList ∨ '\\' :: '"' :: "event".toList <:+ raw

theorem create_streamType (msg : List Char) :
    (create msg : BitstampStreamParser Double).mStreamType = .tradeTickStream ↔
      spelling "event".toList "trade".toList <:+: msg := by
  have hpattern : "\"event\":\"trade\"".toList = spelling "event".toList "trade".toList := by decide
  rw [create,contains,hpattern]
  dsimp only
  split_ifs with h
  · exact iff_of_true rfl (of_decide_eq_true h)
  · exact iff_of_false id (fun hyes => h (decide_eq_true hyes))

theorem create_streamType_of_ne {msg : List Char}
    (h : (create msg : BitstampStreamParser Double).mStreamType ≠ .tradeTickStream) :
    (create msg : BitstampStreamParser Double).mStreamType = .noneStream := by
  rw [create] at h ⊢
  exact if_neg (fun hyes => h (if_pos hyes))

theorem create_streamType_iff {msg : List Char} {v : Json} (h : decode (String.ofList msg) = some v) :
    (create msg : BitstampStreamParser Double).mStreamType = .tradeTickStream ↔
      HasMember "event".toList "trade".toList (tokens msg) := by
  have hkey : Plain ('e' :: "vent".toList) := by decide
  rw [create_streamType]
  exact infix_spelling_iff hkey (by decide) (by decide) h

/-- A document is a trade exactly when some member in it, at whatever depth, has the key `event`
and the string `trade` for its value, spelled without escapes and without white space around
the colon; but for a key that ends in it behind an escaped quote. White space elsewhere makes
no difference. -/
theorem tradeTickStream_iff {msg : List Char} {members : List (String × Json)}
    (h : decode (String.ofList msg) = some (.object members)) :
    ((create msg : BitstampStreamParser Double).mStreamType = .tradeTickStream ↔
      ∃ raw, SpelledEvent raw ∧ memberTokens raw "trade".toList <:+: tokens msg) ∧
    (∀ raw, memberTokens raw "trade".toList <:+: tokens msg → ∃ key, Quoted raw key ∧
      Occurs (String.ofList key,.string "trade") (.value (.object members))) ∧
    ∀ other others, decode (String.ofList other) = some (.object others) →
      Relation.EqvGen Spaced (tokens msg) (tokens other) →
        (create other : BitstampStreamParser Double).mStreamType =
          (create msg : BitstampStreamParser Double).mStreamType := by
  refine ⟨create_streamType_iff h,?_,?_⟩
  · intro raw hfound
    obtain ⟨key,text,hkey,htext,hoccurs⟩ := occurs_of_memberTokens h hfound
    rw [htext.eq_of_plain (by decide)] at hoccurs
    exact ⟨key,hkey,hoccurs⟩
  · intro other others hother hspaced
    have hsame : (create other : BitstampStreamParser Double).mStreamType = .tradeTickStream ↔
        (create msg : BitstampStreamParser Double).mStreamType = .tradeTickStream := by
      rw [create_streamType_iff hother,create_streamType_iff h]
      exact (hasMember_iff_of_spaced hspaced).symm
    by_cases htrade : (create msg : BitstampStreamParser Double).mStreamType = .tradeTickStream
    · rw [htrade,hsame.mpr htrade]
    · rw [create_streamType_of_ne htrade,create_streamType_of_ne (mt hsame.mp htrade)]

/-- The object of one member, with white space in front of the key and of the value. -/
def tradeText (s t : List Char) : List Char :=
  '{' :: (memberText s "event".toList [] (t ++ '"' :: ("trade".toList ++ ['"'])) ++ ['}'])

theorem spells_tradeText {s t : List Char} (hs : Blank s) (ht : Blank t) :
    Spells (.value (.object [("event",.string "trade")])) (tradeText s t) := by
  have hvalue : Spells (.value (.string (String.ofList "trade".toList)))
      (t ++ '"' :: ("trade".toList ++ ['"'])) := .scalar ht (.string (.of_plain (by decide)))
  have hmembers := Spells.lastMember hs (.of_plain (by decide : Plain "event".toList)) blank_nil hvalue
    blank_nil
  rw [String.ofList_toList,String.ofList_toList] at hmembers
  exact .object blank_nil hmembers

theorem decode_tradeText {s t : List Char} (hs : Blank s) (ht : Blank t) :
    decode (String.ofList (tradeText s t)) = some (.object [("event",.string "trade")]) :=
  decode_eq_some_iff_spells.mpr ⟨_,[],by rw [String.toList_ofList,List.append_nil],
    spells_tradeText hs ht,blank_nil⟩

theorem tradeTickStream_iff_spaced :
    (create (tradeText [] []) : BitstampStreamParser ℕ).mStreamType = .tradeTickStream ∧
    (∃ key, Quoted "event".toList key ∧ Occurs (String.ofList key,.string "trade")
      (.value (.object [("event",.string "trade")]))) ∧
    (create (tradeText [' '] []) : BitstampStreamParser ℕ).mStreamType = .tradeTickStream := by
  have hmember : memberTokens "event".toList "trade".toList <:+: tokens (tradeText [] []) := by
    decide
  obtain ⟨hiff,hoccurs,hspaced⟩ := @tradeTickStream_iff ℕ _ _ _
    (decode_tradeText blank_nil blank_nil)
  have htrade := hiff.mpr ⟨_,Or.inl rfl,hmember⟩
  refine ⟨htrade,hoccurs _ hmember,?_⟩
  rw [hspaced (tradeText [' '] []) _ (decode_tradeText (by decide) blank_nil) (.rel _ _ ?_),htrade]
  exact .insert (a := [.char '{']) (c := ' ') rfl (by decide) (by decide)

/-- With white space behind the colon a trade is none, and a member that is not at the top
makes one. -/
theorem spelling_not_structure :
    (decode "\x7b\"event\": \"trade\"\x7d" = some (.object [("event",.string "trade")]) ∧
      (create "\x7b\"event\": \"trade\"\x7d".toList : BitstampStreamParser ℕ).mStreamType =
        .noneStream) ∧
    (decode "\x7b\"data\":\x7b\"event\":\"trade\"\x7d\x7d" =
        some (.object [("data",.object [("event",.string "trade")])]) ∧
      (create "\x7b\"data\":\x7b\"event\":\"trade\"\x7d\x7d".toList :
        BitstampStreamParser ℕ).mStreamType = .tradeTickStream) := by
  refine ⟨⟨decode_tradeText (s := []) (t := [' ']) blank_nil (by decide),by decide⟩,?_,by decide⟩
  have hmembers := Spells.lastMember blank_nil (.of_plain (by decide : Plain "data".toList)) blank_nil
    (spells_tradeText blank_nil blank_nil) blank_nil
  rw [String.ofList_toList] at hmembers
  exact decode_eq_some_iff_spells.mpr ⟨_,[],rfl,.object blank_nil hmembers,blank_nil⟩

end BitstampStreamParser
end Moboware
