import Mathlib.Data.Nat.Notation
import Mathlib.Data.List.Basic

/-! # JSON documents

A decoder of JSON texts. It accepts the grammar and nothing else, keeps the members of
an object in their order and repetitions, and leaves numbers as their numerals.
-/
namespace Library

/-- A number stands for its numeral; an object keeps its members in order. -/
inductive Json
  | null
  | bool (b : Bool)
  | number (numeral : String)
  | string (s : String)
  | array (elements : List Json)
  | object (members : List (String × Json))

namespace Json

/-- The first member with the key. -/
def member? (key : String) : Json → Option Json
  | object members => (members.find? (fun m => m.1 == key)).map Prod.snd
  | _ => none

def isSpace (c : Char) : Bool := c == ' ' || c == '\t' || c == '\n' || c == '\r'

def skip (cs : List Char) : List Char := cs.dropWhile isSpace

/-- The next token, when it is the character. -/
def token (c : Char) (cs : List Char) : Option (List Char) :=
  match skip cs with
  | [] => none
  | d :: cs => if d = c then some cs else none

section Strings

def hexDigit (c : Char) : Option ℕ :=
  if '0' ≤ c ∧ c ≤ '9' then some (c.toNat - '0'.toNat)
  else if 'a' ≤ c ∧ c ≤ 'f' then some (c.toNat - 'a'.toNat + 10)
  else if 'A' ≤ c ∧ c ≤ 'F' then some (c.toNat - 'A'.toNat + 10)
  else none

def hex4 : List Char → Option (ℕ × List Char)
  | a :: b :: c :: d :: cs => do
    let a ← hexDigit a
    let b ← hexDigit b
    let c ← hexDigit c
    let d ← hexDigit d
    some (((a * 16 + b) * 16 + c) * 16 + d,cs)
  | _ => none

/-- The second half of a surrogate pair. -/
def lowSurrogate (high : ℕ) : List Char → Option (Char × List Char)
  | '\\' :: 'u' :: cs => do
    let (low,cs) ← hex4 cs
    if 0xDC00 ≤ low ∧ low < 0xE000 then
      some (Char.ofNat (0x10000 + (high - 0xD800) * 0x400 + (low - 0xDC00)),cs)
    else none
  | _ => none

def unicodeEscape (cs : List Char) : Option (Char × List Char) := do
  let (unit,cs) ← hex4 cs
  if 0xD800 ≤ unit ∧ unit < 0xDC00 then lowSurrogate unit cs
  else if 0xDC00 ≤ unit ∧ unit < 0xE000 then none
  else some (Char.ofNat unit,cs)

def simpleEscape (c : Char) : Option Char :=
  if c = '"' ∨ c = '\\' ∨ c = '/' then some c
  else if c = 'b' then some (Char.ofNat 0x08)
  else if c = 'f' then some (Char.ofNat 0x0C)
  else if c = 'n' then some '\n'
  else if c = 'r' then some '\r'
  else if c = 't' then some '\t'
  else none

/-- What follows a backslash. -/
def escape : List Char → Option (Char × List Char)
  | [] => none
  | c :: cs => if c = 'u' then unicodeEscape cs else (simpleEscape c).map (fun d => (d,cs))

def quotedFrom : ℕ → List Char → Option (List Char × List Char)
  | 0, _ => none
  | _ + 1, [] => none
  | fuel + 1, c :: cs =>
    if c = '"' then some ([],cs)
    else if c = '\\' then do
      let (d,cs) ← escape cs
      let (t,cs) ← quotedFrom fuel cs
      some (d :: t,cs)
    else if c.toNat < 0x20 then none
    else do
      let (t,cs) ← quotedFrom fuel cs
      some (c :: t,cs)

/-- The text of a string whose opening quote is read, and what follows its end. -/
def quoted (cs : List Char) : Option (List Char × List Char) := quotedFrom (cs.length + 1) cs

end Strings

section Numbers

def isDigit (c : Char) : Bool := decide ('0' ≤ c ∧ c ≤ '9')

def digits (cs : List Char) : Option (List Char × List Char) :=
  if cs.takeWhile isDigit = [] then none else some (cs.takeWhile isDigit,cs.dropWhile isDigit)

/-- The characters of which one may stand here, or nothing. -/
def sign (signs : List Char) : List Char → List Char × List Char
  | [] => ([],[])
  | c :: cs => if c ∈ signs then ([c],cs) else ([],c :: cs)

def integer : List Char → Option (List Char × List Char)
  | [] => none
  | c :: cs => if c = '0' then some ([c],cs) else digits (c :: cs)

def fraction : List Char → Option (List Char × List Char)
  | [] => some ([],[])
  | c :: cs =>
    if c = '.' then (digits cs).map (fun r => (c :: r.1,r.2)) else some ([],c :: cs)

def exponent : List Char → Option (List Char × List Char)
  | [] => some ([],[])
  | c :: cs =>
    if c = 'e' ∨ c = 'E' then
      (digits (sign ['+','-'] cs).2).map (fun r => (c :: ((sign ['+','-'] cs).1 ++ r.1),r.2))
    else some ([],c :: cs)

def numeral (cs : List Char) : Option (List Char × List Char) := do
  let (minus,cs) := sign ['-'] cs
  let (int,cs) ← integer cs
  let (frac,cs) ← fraction cs
  let (exp,cs) ← exponent cs
  some (minus ++ int ++ frac ++ exp,cs)

end Numbers

/-- One of the three words, when the text starts with it. -/
def word (cs : List Char) : Option (Json × List Char) :=
  match cs with
  | 't' :: 'r' :: 'u' :: 'e' :: cs => some (bool true,cs)
  | 'f' :: 'a' :: 'l' :: 's' :: 'e' :: cs => some (bool false,cs)
  | 'n' :: 'u' :: 'l' :: 'l' :: cs => some (null,cs)
  | _ => none

/-- A value that is no object and no array. -/
def scalar (cs : List Char) : Option (Json × List Char) :=
  match token '"' cs with
  | some cs => (quoted cs).map (fun r => (string (String.ofList r.1),r.2))
  | none => (word (skip cs)).or
      ((numeral (skip cs)).map (fun r => (number (String.ofList r.1),r.2)))

mutual

/-- Every level of nesting and every further member or element takes one of the fuel. -/
def value : ℕ → List Char → Option (Json × List Char)
  | 0, _ => none
  | fuel + 1, cs =>
    match token '{' cs, token '[' cs with
    | some cs, _ =>
      match token '}' cs with
      | some cs => some (object [],cs)
      | none => (members fuel cs).map (fun r => (object r.1,r.2))
    | none, some cs =>
      match token ']' cs with
      | some cs => some (array [],cs)
      | none => (elements fuel cs).map (fun r => (array r.1,r.2))
    | none, none => scalar cs

def members : ℕ → List Char → Option (List (String × Json) × List Char)
  | 0, _ => none
  | fuel + 1, cs => do
    let (key,cs) ← quoted (← token '"' cs)
    let (v,cs) ← value fuel (← token ':' cs)
    match token ',' cs with
    | some cs => (members fuel cs).map (fun r => ((String.ofList key,v) :: r.1,r.2))
    | none => (token '}' cs).map (fun cs => ([(String.ofList key,v)],cs))

def elements : ℕ → List Char → Option (List Json × List Char)
  | 0, _ => none
  | fuel + 1, cs => do
    let (v,cs) ← value fuel cs
    match token ',' cs with
    | some cs => (elements fuel cs).map (fun r => (v :: r.1,r.2))
    | none => (token ']' cs).map (fun cs => ([v],cs))

end

/-- The document of a text: one value and only white space around it. -/
def decode (text : String) : Option Json :=
  match value (text.toList.length + 1) text.toList with
  | some (v,cs) => if skip cs = [] then some v else none
  | none => none

end Json
end Library
