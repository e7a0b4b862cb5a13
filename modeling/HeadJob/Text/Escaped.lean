import HeadJob.Text.Unseen

/-!
Text in double quotes, as a diagnostic shows it: what cannot be seen is written as an escape.
-/

namespace HeadJob
namespace Text

/-- A character of a diagnostic.  One that cannot be seen is written as its code point. -/
def diagnosticChar (c : Char) : Text :=
  match c with
  | '"' => ['\\', '"']
  | '\\' => ['\\', '\\']
  | '\n' => ['\\', 'n']
  | '\r' => ['\\', 'r']
  | '\t' => ['\\', 't']
  | '\x00' => ['\\', '0']
  | c => if isUnseen c then "\\u\x7b".toList ++ Nat.toDigits 16 c.toNat ++ ['}'] else [c]

def diagnostic (s : String) : String :=
  String.ofList ('"' :: s.toList.flatMap diagnosticChar ++ ['"'])

end Text
end HeadJob
