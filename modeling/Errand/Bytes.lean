/-
  Errand.Bytes — rows of bytes: how they are shown, and their base 64 form.

  Bytes are shown like a text behind the letter b, those that are no printing
  ASCII character by their number. Four characters of base 64 make three bytes;
  characters outside its alphabet are passed over, and a padding that completes
  the last four ends the reading.
-/

import Errand.Text.Display

namespace Errand

abbrev Bytes := List UInt8

namespace Bytes

/-! ## Showing -/

/-- One byte as shown between quotes of the kind `quote`. -/
def shownByte (quote : CodePoint) (b : UInt8) : Text :=
  let c := CodePoint.ofNat b.toNat
  if c = quote || c = '\\' then ['\\', c]
  else if c = '\n' then "\\n".text
  else if c = '\r' then "\\r".text
  else if c = '\t' then "\\t".text
  else if 32 ≤ b.toNat && b.toNat < 127 then [c]
  else Text.numberEscape b.toNat

/-- The bytes between quotes, chosen as for a text. -/
def shown (bs : Bytes) : Text :=
  let quote := Text.quoteFor (bs.map fun b => CodePoint.ofNat b.toNat)
  "b".text ++ quote :: bs.flatMap (shownByte quote) ++ [quote]

/-! ## Base 64 -/

/-- The six bits of a character of the alphabet. -/
def sixBits? (c : CodePoint) : Option Nat :=
  if 'A' ≤ c && c ≤ 'Z' then some (c.toNat - 65)
  else if 'a' ≤ c && c ≤ 'z' then some (c.toNat - 71)
  else if '0' ≤ c && c ≤ '9' then some (c.toNat + 4)
  else if c = '+' then some 62
  else if c = '/' then some 63
  else none

/-- The bytes of a base 64 text. `place` characters of the current four are read,
    `bits` is what they leave over, `pads` counts the padding since the last one. -/
def ofBase64From : (place bits pads : Nat) → Text → Option Bytes
  | place, _, _, [] => if place = 0 then some [] else none
  | place, bits, pads, c :: rest =>
    if c = '=' then
      if 2 ≤ place && 4 ≤ place + pads + 1 then some []
      else ofBase64From place bits (if 2 ≤ place then pads + 1 else pads) rest
    else match sixBits? c with
      | none => ofBase64From place bits pads rest
      | some six =>
        match place with
        | 0 => ofBase64From 1 six 0 rest
        | 1 => (ofBase64From 2 (six % 16) 0 rest).map (UInt8.ofNat (bits * 4 + six / 16) :: ·)
        | 2 => (ofBase64From 3 (six % 4) 0 rest).map (UInt8.ofNat (bits * 16 + six / 4) :: ·)
        | _ => (ofBase64From 0 0 0 rest).map (UInt8.ofNat (bits * 64 + six) :: ·)

/-- The bytes of a base 64 text; none where its last four are not complete. -/
def ofBase64? (t : Text) : Option Bytes := ofBase64From 0 0 0 t

end Bytes

end Errand
