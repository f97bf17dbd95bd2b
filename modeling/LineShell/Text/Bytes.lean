/-!
# Bytes and the text they spell

Files, pipes and streams carry bytes. A text is written as its UTF-8 encoding, and bytes are read
back as text only when they are a valid encoding.

`lines` cuts bytes after each line feed, so that nothing is lost (`flatten_lines`); a last line
without a line feed counts too. `chomp` removes a line's ending: its line feed and, before that,
one carriage return. A line without a line feed has no ending to remove.
-/

namespace LineShell

/-- What a file holds or a stream carries. -/
abbrev Bytes := List UInt8

namespace Bytes

/-- The UTF-8 encoding of a text. -/
def ofText (s : String) : Bytes :=
  s.toUTF8.data.toList

/-- The text that the bytes encode, if they are valid UTF-8. -/
def text? (b : Bytes) : Option String :=
  String.fromUTF8? ⟨⟨b⟩⟩

/-- The characters whose numbers the bytes are. -/
def chars (b : Bytes) : List Char :=
  b.map fun x => Char.ofNat x.toNat

/-- The text that the bytes encode; if they are not valid UTF-8, each byte stands for the character
of its number. -/
def anyText (b : Bytes) : String :=
  (text? b).getD (String.ofList (chars b))

/-- The line feed. -/
def lineFeed : UInt8 := 10

/-- The carriage return. -/
def carriageReturn : UInt8 := 13

/-- A text followed by a line feed, as it is printed. -/
def ofLine (s : String) : Bytes :=
  ofText s ++ [lineFeed]

/-- The bytes cut after each line feed. -/
def lines : Bytes → List Bytes
  | [] => []
  | b :: rest =>
    if b = lineFeed then [b] :: lines rest
    else
      match lines rest with
      | [] => [[b]]
      | l :: ls => (b :: l) :: ls

/-- A line without its ending: the line feed, and one carriage return before it. -/
def chomp (l : Bytes) : Bytes :=
  if l.getLast? = some lineFeed then
    if l.dropLast.getLast? = some carriageReturn then l.dropLast.dropLast else l.dropLast
  else l

/-- Writing a text and reading it back gives the text. -/
@[simp] theorem text?_ofText (s : String) : text? (ofText s) = some s := by
  have h : (⟨⟨s.toUTF8.data.toList⟩⟩ : ByteArray) = s.toByteArray := rfl
  rw [text?, ofText, h, String.fromUTF8?, dif_pos s.isValidUTF8]
  rfl

/-- Texts are encoded one after the other. -/
@[simp] theorem ofText_append (s t : String) : ofText (s ++ t) = ofText s ++ ofText t := by
  simp [ofText]

/-- **Cutting into lines loses nothing.** -/
@[simp] theorem flatten_lines (b : Bytes) : (lines b).flatten = b := by
  induction b with
  | nil => rfl
  | cons x rest ih =>
    rw [lines]
    split
    · simp [ih]
    · split
      next h => rw [h] at ih; simp_all
      next l ls h => rw [h] at ih; simp_all

end Bytes
end LineShell
