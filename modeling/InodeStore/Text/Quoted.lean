import InodeStore.Text.Extending
import InodeStore.Text.Invisible

/-!
# `InodeStore.Text.Quoted` — text between double quotes

What could not be seen between the quotes, or would be drawn onto the character before it, is shown
by the number of its code point. A single quote needs no mark.

`quoted_of_isPlain` says that a text of plain characters is shown as it is.
-/

namespace InodeStore.Text

/-- Is a character shown as it is? -/
def isPlain (c : Char) : Bool :=
  c ≠ '"' && c ≠ '\\' && !inRanges invisible c.toNat && !inRanges extending c.toNat

/-- The number of a code point, in hexadecimal. -/
def codePoint (n : Nat) : String :=
  "\\u\x7b" ++ String.ofList (Nat.toDigits 16 n) ++ "\x7d"

/-- A character as it is shown between quotes. -/
def quotedChar (c : Char) : String :=
  if isPlain c then String.singleton c
  else
    match c with
    | '"' => "\\\""
    | '\\' => "\\\\"
    | '\n' => "\\n"
    | '\r' => "\\r"
    | '\t' => "\\t"
    | '\x00' => "\\0"
    | c => codePoint c.toNat

/-- A text between quotes. -/
def quoted (text : String) : String :=
  "\"" ++ String.join (text.toList.map quotedChar) ++ "\""

/-- A text of plain characters is shown as it is. -/
theorem quoted_of_isPlain (text : String) (h : ∀ c ∈ text.toList, isPlain c = true) :
    quoted text = "\"" ++ text ++ "\"" := by
  have same : text.toList.map quotedChar = text.toList.map String.singleton :=
    List.map_congr_left fun c hc => if_pos (h c hc)
  have whole : ∀ cs : List Char, String.join (cs.map String.singleton) = String.ofList cs := by
    intro cs
    apply String.toList_injective
    induction cs <;> simp_all
  rw [quoted, same, whole, String.ofList_toList]

end InodeStore.Text
