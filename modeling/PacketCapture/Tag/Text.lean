/-! # Text of tags

A tag is a number that selects how what follows is read. Its text is the registered name of the
number, or else the tag's kind with the number in decimal and hexadecimal.
-/
namespace PacketCapture.Tag

def hexadecimal (n : Nat) : String := .ofList (Nat.toDigits 16 n)

def unregistered (kind : String) (code : Nat) : String :=
  kind ++ "(" ++ toString code ++ " / 0x" ++ hexadecimal code ++ ")"

def text (kind : String) (names : List (Nat × String)) (code : Nat) : String :=
  (names.lookup code).getD (unregistered kind code)

end PacketCapture.Tag
