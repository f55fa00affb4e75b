/-
  Errand.Entity.Name — what entities are called.

  A name is a text as a rule, but data may give bytes for the name of something related,
  and these are kept. A name of bytes is never the same as a text.
-/

import Errand.Text.Case
import Errand.Value

namespace Errand

namespace Bytes

def isBlank (b : UInt8) : Bool := b == 32 || (9 ≤ b && b ≤ 13)

/-- The bytes without the blanks at their two ends. -/
def trim (bs : Bytes) : Bytes := ((bs.dropWhile isBlank).reverse.dropWhile isBlank).reverse

/-- The small forms of the letters A to Z among the bytes. -/
def lower (bs : Bytes) : Bytes := bs.map fun b => if 65 ≤ b && b ≤ 90 then b + 32 else b

end Bytes

inductive Name where
  | text (t : Text)
  | bytes (bs : Bytes)
  deriving DecidableEq, Repr, Inhabited

namespace Name

def isText : Name → Bool
  | .text _ => true
  | .bytes _ => false

def isEmpty : Name → Bool
  | .text t => t.isEmpty
  | .bytes bs => bs.isEmpty

/-- The name without the blanks at its two ends. -/
def trim : Name → Name
  | .text t => .text (Text.trim t)
  | .bytes bs => .bytes bs.trim

def lower : Name → Name
  | .text t => .text (Text.lower t)
  | .bytes bs => .bytes bs.lower

/-- Names are compared by this form. -/
def key (n : Name) : Name := n.trim.lower

def value : Name → Value
  | .text t => .text t
  | .bytes bs => .scalar (.bytes bs)

/-- The name as a text: bytes are as shown. -/
def display : Name → Text
  | .text t => t
  | .bytes bs => bs.shown

/-- The name as shown inside a message. -/
def shown : Name → Text
  | .text t => Text.shown t
  | .bytes bs => bs.shown

end Name

end Errand
