/-!
# Reading damaged UTF-8

`decodeLossy` reads bytes as UTF-8 and puts the replacement character in the
place of what is no character. A lead byte takes as many of the bytes after it
as can still belong to a character; if they do not complete one, all of them
together are replaced once.
-/

namespace PromptDoc.Text

/-- The number of bytes that have to follow a lead byte, and the least and the
greatest value of the first of them. -/
def leadByte? (b : UInt8) : Option (Nat × UInt8 × UInt8) :=
  if 0xC2 ≤ b ∧ b ≤ 0xDF then some (1, 0x80, 0xBF)
  else if b = 0xE0 then some (2, 0xA0, 0xBF)
  else if b = 0xED then some (2, 0x80, 0x9F)
  else if 0xE1 ≤ b ∧ b ≤ 0xEF then some (2, 0x80, 0xBF)
  else if b = 0xF0 then some (3, 0x90, 0xBF)
  else if 0xF1 ≤ b ∧ b ≤ 0xF3 then some (3, 0x80, 0xBF)
  else if b = 0xF4 then some (3, 0x80, 0x8F)
  else none

/-- The first `n` bytes as far as they can follow a lead byte. -/
def followers : (n : Nat) → (least greatest : UInt8) → List UInt8 → List UInt8
  | n + 1, least, greatest, b :: rest =>
    if least ≤ b ∧ b ≤ greatest then b :: followers n 0x80 0xBF rest else []
  | _, _, _, _ => []

/-- The character of a lead byte with `n` bytes after it. -/
def assemble (lead : UInt8) (n : Nat) (tail : List UInt8) : Char :=
  Char.ofNat (tail.foldl (fun code b => code * 64 + b.toNat % 64) (lead.toNat % Nat.pow 2 (6 - n)))

/-- The text of bytes, with replacement characters for what is no character. -/
def decodeLossy : List UInt8 → List Char
  | [] => []
  | b :: rest =>
    if b < 0x80 then Char.ofNat b.toNat :: decodeLossy rest
    else match leadByte? b with
      | none => '\ufffd' :: decodeLossy rest
      | some (n, least, greatest) =>
        let tail := followers n least greatest rest
        (if tail.length = n then assemble b n tail else '\ufffd') ::
          decodeLossy (rest.drop tail.length)
termination_by bytes => bytes.length

end PromptDoc.Text
