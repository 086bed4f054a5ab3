import GraphMachine.Text.Hidden

/-!
# Quoted texts

In log entries texts are put in double quotes.  Quotes, backslashes and the usual control
characters are escaped with a backslash; other characters without a mark of their own are written
as their hexadecimal number in braces.
-/

namespace GraphMachine
namespace Text

def quotedChar (c : Char) : List Char :=
  match c with
  | '"' => ['\\', '"']
  | '\\' => ['\\', '\\']
  | '\t' => ['\\', 't']
  | '\r' => ['\\', 'r']
  | '\n' => ['\\', 'n']
  | '\x00' => ['\\', '0']
  | _ =>
      if isHidden c then
        ['\\', 'u', '\x7b'] ++ Nat.toDigits 16 c.toNat ++ ['\x7d']
      else
        [c]

def quoted (text : String) : String :=
  String.ofList ('"' :: text.toList.flatMap quotedChar ++ ['"'])

end Text
end GraphMachine
