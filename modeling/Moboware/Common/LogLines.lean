import Mathlib.Data.List.Basic
import Mathlib.Data.List.Induction

/-! # Log lines

`Logger::_log` formats a line into a buffer of fixed size: the prefix, the message and the
newline that ends it, character for character. A full buffer drops what comes next, and
the newline comes last.
-/
namespace Moboware

/-- What `data` and `size` show of the array. -/
structure TrivialBuffer (T : Type*) (bufferSize : ℕ) where
  data : List T
  size_le : data.length ≤ bufferSize

namespace TrivialBuffer
variable {T : Type*} {bufferSize : ℕ}

def empty : TrivialBuffer T bufferSize := ⟨[],Nat.zero_le _⟩

def pushBack (b : TrivialBuffer T bufferSize) (value : T) : TrivialBuffer T bufferSize :=
  if h : b.data.length < bufferSize then
    ⟨b.data ++ [value],by rwa [List.length_append,List.length_singleton]⟩
  else b

/-- Through a `back_insert_iterator` each formatted character is pushed back. -/
def vformatTo (b : TrivialBuffer T bufferSize) (text : List T) : TrivialBuffer T bufferSize :=
  text.foldl pushBack b

theorem vformatTo_append (b : TrivialBuffer T bufferSize) (text rest : List T) :
    b.vformatTo (text ++ rest) = (b.vformatTo text).vformatTo rest := List.foldl_append

theorem pushBack_data (b : TrivialBuffer T bufferSize) (value : T) :
    (b.pushBack value).data = (b.data ++ [value]).take bufferSize := by
  have hle := b.size_le
  rw [pushBack]
  split_ifs with hroom
  · exact (List.take_of_length_le (by rwa [List.length_append,List.length_singleton])).symm
  · have hnone : bufferSize - b.data.length = 0 := by omega
    rw [List.take_append,hnone,List.take_zero,List.append_nil,List.take_of_length_le hle]

/-- The buffer keeps the first characters of all that is written to it. -/
theorem vformatTo_data (b : TrivialBuffer T bufferSize) (text : List T) :
    (b.vformatTo text).data = (b.data ++ text).take bufferSize := by
  induction text using List.reverseRecOn with
  | nil =>
    rw [List.append_nil,List.take_of_length_le b.size_le]
    rfl
  | append_singleton text value ih =>
    have hlen : bufferSize - min bufferSize (b.data ++ text).length =
        bufferSize - (b.data ++ text).length := by omega
    rw [vformatTo_append,← List.append_assoc,List.take_append,← hlen,← List.length_take,← ih]
    refine (pushBack_data _ value).trans ?_
    rw [List.take_append,List.take_of_length_le (b.vformatTo text).size_le]

end TrivialBuffer

namespace Logger

abbrev LogChar := UInt8

def newline : LogChar := 10

def maxLogLineLength : ℕ := 5 * 1024

abbrev LogBuffer := TrivialBuffer LogChar maxLogLineLength

/-- What `_log` formats: the text in front of the message, and the message. -/
structure LogLine where
  preLine : List LogChar
  message : List LogChar

namespace LogLine

def buffer (line : LogLine) : LogBuffer :=
  ((TrivialBuffer.empty.vformatTo line.preLine).vformatTo line.message).vformatTo [newline]

def text (line : LogLine) : List LogChar := line.preLine ++ line.message

theorem buffer_data (line : LogLine) :
    line.buffer.data = (line.text ++ [newline]).take maxLogLineLength := by
  rw [buffer,← TrivialBuffer.vformatTo_append,← TrivialBuffer.vformatTo_append,
    TrivialBuffer.vformatTo_data,text,List.append_assoc]
  rfl

/-- The buffer is a line of its own: not too long, with the newline at its end and nothing
but the start of the full line in front of it. -/
structure Separate (line : LogLine) : Prop where
  length_le : line.buffer.data.length ≤ maxLogLineLength
  newline_last : line.buffer.data.getLast? = some newline
  rest_prefix : line.buffer.data.dropLast <+: line.text ++ [newline]

/-- The newline still fits behind the text, or the last character of the text that fits is one. -/
def KeepsNewline (line : LogLine) : Prop :=
  line.text.length < maxLogLineLength ∨ line.text[maxLogLineLength - 1]? = some newline

theorem newline_last_iff (line : LogLine) :
    line.buffer.data.getLast? = some newline ↔ line.KeepsNewline := by
  have hpos : 0 < maxLogLineLength := by decide
  rw [buffer_data,KeepsNewline]
  by_cases hfits : line.text.length < maxLogLineLength
  · rw [List.take_of_length_le (by rwa [List.length_append,List.length_singleton]),
      List.getLast?_concat]
    exact iff_of_true rfl (Or.inl hfits)
  · have hle : maxLogLineLength ≤ line.text.length := Nat.not_lt.mp hfits
    have hlen : (line.text.take maxLogLineLength).length = maxLogLineLength := by
      rw [List.length_take]
      omega
    rw [List.take_append_of_le_length hle,List.getLast?_eq_getElem?,hlen,List.getElem?_take,
      if_pos (by omega),or_iff_right hfits]

theorem separate_iff (line : LogLine) : line.Separate ↔ line.KeepsNewline := by
  rw [← newline_last_iff]
  refine ⟨fun h => h.newline_last,fun h => ⟨line.buffer.size_le,h,?_⟩⟩
  apply (List.dropLast_prefix _).trans
  rw [buffer_data]
  exact List.take_prefix ..

end LogLine

/-- What the consumer writes for the lines, from the start of a line of the stream on: behind the
banner of `SetLogFile`, which has no newline, the first one goes on in its line. -/
def written (lines : List LogLine) : List LogChar := lines.flatMap (fun line => line.buffer.data)

/-- Nothing is written yet behind the start of the line, or the last character is a newline. -/
def AtLineStart (stream : List LogChar) : Prop :=
  stream = [] ∨ stream.getLast? = some newline

/-- Each line starts where a line of the stream does, and ends one. -/
def OwnLines (lines : List LogLine) : Prop :=
  ∀ before line after, lines = before ++ line :: after →
    AtLineStart (written before) ∧ AtLineStart (written (before ++ [line]))

theorem LogLine.buffer_ne_nil (line : LogLine) : line.buffer.data ≠ [] := by
  have hpos : 0 < maxLogLineLength := by decide
  intro hnil
  have hlen := congrArg List.length hnil
  rw [buffer_data,List.length_take,List.length_append,List.length_singleton,
    List.length_nil] at hlen
  omega

theorem atLineStart_after_iff (before : List LogLine) (line : LogLine) :
    AtLineStart (written (before ++ [line])) ↔ line.KeepsNewline := by
  have hwritten : written (before ++ [line]) = written before ++ line.buffer.data := by
    simp [written]
  rw [AtLineStart,hwritten,List.getLast?_append_of_ne_nil _ line.buffer_ne_nil,
    line.newline_last_iff]
  apply or_iff_right
  simp [line.buffer_ne_nil]

/-- Every log entry is separate exactly when its newline is kept, and in the stream each
entry is on a line of its own exactly when all of them are. -/
theorem log_entries_separate_iff (lines : List LogLine) :
    (∀ line ∈ lines, line.Separate ↔ line.KeepsNewline) ∧
    (OwnLines lines ↔ ∀ line ∈ lines, line.KeepsNewline) := by
  refine ⟨fun line _ => line.separate_iff,fun h line hline => ?_,fun h before line after hl => ?_⟩
  · obtain ⟨before,after,hl⟩ := List.append_of_mem hline
    exact (atLineStart_after_iff before line).mp (h before line after hl).2
  · refine ⟨?_,(atLineStart_after_iff before line).mpr (h line (by simp [hl]))⟩
    rcases List.eq_nil_or_concat' before with rfl | ⟨front,last,rfl⟩
    · exact Or.inl rfl
    · exact (atLineStart_after_iff front last).mpr (h last (by simp [hl]))

/-- A message that fills the buffer by itself. -/
def fullLine : LogLine := ⟨[],List.replicate maxLogLineLength 97⟩

theorem fullLine_not_separate : ¬ fullLine.Separate := by
  rw [LogLine.separate_iff]
  rw [LogLine.KeepsNewline,LogLine.text,fullLine,List.nil_append,List.length_replicate,
    List.getElem?_replicate]
  decide

end Logger
end Moboware
