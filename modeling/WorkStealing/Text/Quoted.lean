import WorkStealing.Text.Unprintable

set_option autoImplicit false

/-!
# Quoted text

A text is shown between double quotes. Tab, carriage return, line feed, the null character, the
quote and the backslash have short escapes; any other unprintable character is shown by its code
point.
-/
namespace WorkStealing.Text

def hexDigits (n : Nat) : String := String.ofList (Nat.toDigits 16 n)

def quotedChar (c : Char) : String :=
  match c with
  | '\t' => "\\t"
  | '\r' => "\\r"
  | '\n' => "\\n"
  | '\x00' => "\\0"
  | '"' => "\\\""
  | '\\' => "\\\\"
  | c => if isUnprintable c then "\\u\x7b" ++ hexDigits c.toNat ++ "\x7d" else c.toString

def quoted (s : String) : String :=
  "\"" ++ String.join (s.toList.map quotedChar) ++ "\""

end WorkStealing.Text
