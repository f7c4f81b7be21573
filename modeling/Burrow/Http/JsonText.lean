import Burrow.Http.JsonParser

/-!
# The texts that the JSON parser reads

`Document text events` says that a text is one that the parser accepts, and what it delivers
for it. These are the texts of JSON up to nineteen levels deep, without `true`, `false` and
`null`, and without an exponent behind a whole number that is zero. Comments can stand where
white space can, but not at once behind an exponent or a point; and there need not be a digit
behind a point.

A string has the bytes that it is of when its escapes are replaced by the UTF-8 of their
characters, and an integer the value nearest to it that there is.
-/

set_option autoImplicit false

namespace Burrow.Http

/-! ## White space and comments -/

def IsSpace (c : UInt8) : Prop := c ∈ [32, 9, 10, 13]

instance (c : UInt8) : Decidable (IsSpace c) := inferInstanceAs (Decidable (_ ∈ _))

/-- The parser knows the byte. -/
def IsChar (c : UInt8) : Prop := 32 ≤ c ∨ IsSpace c

instance (c : UInt8) : Decidable (IsChar c) := inferInstanceAs (Decidable (_ ∨ _))

/-- What follows in a comment, at once behind a `*` or not. -/
inductive CommentRest : Bool → List UInt8 → Prop
  | close : CommentRest true [47]
  | star {starred : Bool} {rest : List UInt8} :
      CommentRest true rest → CommentRest starred (42 :: rest)
  | char {starred : Bool} {c : UInt8} {rest : List UInt8} : IsChar c → c ≠ 42 →
      (starred = true → c ≠ 47) → CommentRest false rest → CommentRest starred (c :: rest)

/-- White space and comments. -/
inductive Gap : List UInt8 → Prop
  | nil : Gap []
  | space {c : UInt8} {rest : List UInt8} : IsSpace c → Gap rest → Gap (c :: rest)
  | comment {body rest : List UInt8} : CommentRest false body → Gap rest →
      Gap (47 :: 42 :: (body ++ rest))

/-! ## Numbers -/

def IsDigit (c : UInt8) : Prop := 48 ≤ c ∧ c ≤ 57

instance (c : UInt8) : Decidable (IsDigit c) := inferInstanceAs (Decidable (_ ∧ _))

/-- The number of some digits. -/
def decimal (digits : List UInt8) : Nat :=
  digits.foldl (fun n c => n * 10 + (c.toNat - 48)) 0

/-- A whole number without a sign, which is zero or not. -/
inductive Unsigned : Bool → List UInt8 → Nat → Prop
  | zero : Unsigned true [48] 0
  | digits {c : UInt8} {rest : List UInt8} : IsDigit c → c ≠ 48 → (∀ d ∈ rest, IsDigit d) →
      Unsigned false (c :: rest) (decimal (c :: rest))

/-- A whole number. -/
inductive Whole : Bool → List UInt8 → Int → Prop
  | plain {zero : Bool} {text : List UInt8} {n : Nat} : Unsigned zero text n → Whole zero text n
  | minus {zero : Bool} {text : List UInt8} {n : Nat} : Unsigned zero text n →
      Whole zero (45 :: text) (-n)

inductive Exponent : List UInt8 → Prop
  | intro {e : UInt8} {sign digits : List UInt8} : e ∈ [(69 : UInt8), 101] →
      sign ∈ [[], [43], [(45 : UInt8)]] → digits ≠ [] → (∀ d ∈ digits, IsDigit d) →
      Exponent (e :: (sign ++ digits))

/-- What there is to a value in 64 bits. -/
def nearest (value : Int) : Int := max (-9223372036854775808) (min value 9223372036854775807)

/-- A number, and whether a comment can stand at once behind it. -/
inductive Number : List UInt8 → JsonEvent → Bool → Prop
  | integer {zero : Bool} {text : List UInt8} {value : Int} : Whole zero text value →
      Number text (.integer (nearest value)) true
  | fraction {zero : Bool} {text digits : List UInt8} {value : Int} : Whole zero text value →
      (∀ d ∈ digits, IsDigit d) → Number (text ++ 46 :: digits) .float (digits ≠ [])
  | exponent {text exponent : List UInt8} {value : Int} : Whole false text value →
      Exponent exponent → Number (text ++ exponent) .float false
  | both {zero : Bool} {text digits exponent : List UInt8} {value : Int} :
      Whole zero text value → (∀ d ∈ digits, IsDigit d) → Exponent exponent →
      Number (text ++ 46 :: (digits ++ exponent)) .float false

/-! ## Strings -/

/-- The value of a hexadecimal digit. -/
def hexValue (c : UInt8) : Option Nat :=
  if 48 ≤ c ∧ c ≤ 57 then some (c.toNat - 48)
  else if 65 ≤ c ∧ c ≤ 70 then some (c.toNat - 55)
  else if 97 ≤ c ∧ c ≤ 102 then some (c.toNat - 87)
  else none

/-- Four hexadecimal digits. -/
inductive Hex : List UInt8 → Nat → Prop
  | intro {a b c d : UInt8} {w x y z : Nat} : hexValue a = some w → hexValue b = some x →
      hexValue c = some y → hexValue d = some z →
      Hex [a, b, c, d] (((w * 16 + x) * 16 + y) * 16 + z)

/-- The characters that stand for one byte behind a backslash. -/
def shortEscapes : List (UInt8 × UInt8) :=
  [(34, 34), (92, 92), (47, 47), (98, 8), (102, 12), (110, 10), (114, 13), (116, 9)]

/-- What stands between two quotes, and its bytes. -/
inductive Chars : List UInt8 → List UInt8 → Prop
  | nil : Chars [] []
  | byte {c : UInt8} {text bytes : List UInt8} : Ordinary c → Chars text bytes →
      Chars (c :: text) (c :: bytes)
  | short {c b : UInt8} {text bytes : List UInt8} : (c, b) ∈ shortEscapes → Chars text bytes →
      Chars (92 :: c :: text) (b :: bytes)
  | unicode {digits text bytes : List UInt8} (char : Char) : Hex digits char.toNat →
      Chars text bytes →
      Chars (92 :: 117 :: (digits ++ text)) (String.utf8EncodeChar char ++ bytes)
  | pair {high low text bytes : List UInt8} (char : Char) : 0x10000 ≤ char.toNat →
      Hex high (0xD800 + (char.toNat - 0x10000) / 0x400) →
      Hex low (0xDC00 + (char.toNat - 0x10000) % 0x400) → Chars text bytes →
      Chars (92 :: 117 :: (high ++ 92 :: 117 :: (low ++ text)))
        (String.utf8EncodeChar char ++ bytes)

/-! ## Values -/

/-- A gap behind a value that a comment can stand at once behind, or cannot. -/
def Follows (commentable : Bool) (gap : List UInt8) : Prop :=
  Gap gap ∧ (commentable = false → gap.head? ≠ some 47)

mutual

/-- A value, in which there are so many levels at most. -/
inductive ValueText : Nat → List UInt8 → List JsonEvent → Bool → Prop
  | string {depth : Nat} {text bytes : List UInt8} : Chars text bytes →
      ValueText depth (34 :: (text ++ [34])) [.string bytes] true
  | number {depth : Nat} {text : List UInt8} {event : JsonEvent} {commentable : Bool} :
      Number text event commentable → ValueText depth text [event] commentable
  | array {depth : Nat} {text : List UInt8} {events : List JsonEvent} :
      ItemsText depth text events →
      ValueText (depth + 1) (91 :: (text ++ [93])) (.arrayBegin :: (events ++ [.arrayEnd])) true
  | object {depth : Nat} {text : List UInt8} {events : List JsonEvent} :
      MembersText depth text events →
      ValueText (depth + 1) (123 :: (text ++ [125])) (.objectBegin :: (events ++ [.objectEnd]))
        true

/-- What stands between the brackets of an array. -/
inductive ItemsText : Nat → List UInt8 → List JsonEvent → Prop
  | empty {depth : Nat} {gap : List UInt8} : Gap gap → ItemsText depth gap []
  | list {depth : Nat} {text : List UInt8} {events : List JsonEvent} :
      ItemList depth text events → ItemsText depth text events

inductive ItemList : Nat → List UInt8 → List JsonEvent → Prop
  | one {depth : Nat} {text : List UInt8} {events : List JsonEvent} :
      ItemText depth text events → ItemList depth text events
  | more {depth : Nat} {text text' : List UInt8} {events events' : List JsonEvent} :
      ItemList depth text events → ItemText depth text' events' →
      ItemList depth (text ++ 44 :: text') (events ++ events')

inductive ItemText : Nat → List UInt8 → List JsonEvent → Prop
  | intro {depth : Nat} {before text behind : List UInt8} {events : List JsonEvent}
      {commentable : Bool} : Gap before → ValueText depth text events commentable →
      Follows commentable behind → ItemText depth (before ++ (text ++ behind)) events

/-- What stands between the braces of an object. -/
inductive MembersText : Nat → List UInt8 → List JsonEvent → Prop
  | empty {depth : Nat} {gap : List UInt8} : Gap gap → MembersText depth gap []
  | list {depth : Nat} {text : List UInt8} {events : List JsonEvent} :
      MemberList depth text events → MembersText depth text events

inductive MemberList : Nat → List UInt8 → List JsonEvent → Prop
  | one {depth : Nat} {text : List UInt8} {events : List JsonEvent} :
      MemberText depth text events → MemberList depth text events
  | more {depth : Nat} {text text' : List UInt8} {events events' : List JsonEvent} :
      MemberList depth text events → MemberText depth text' events' →
      MemberList depth (text ++ 44 :: text') (events ++ events')

/-- A key and its value. -/
inductive MemberText : Nat → List UInt8 → List JsonEvent → Prop
  | intro {depth : Nat} {before key bytes behind item : List UInt8} {events : List JsonEvent} :
      Gap before → Chars key bytes → Gap behind → ItemText depth item events →
      MemberText depth (before ++ 34 :: (key ++ 34 :: (behind ++ 58 :: item)))
        (.key bytes :: events)

end

/-- **A text of the parser**, and what it delivers. -/
inductive Document : List UInt8 → List JsonEvent → Prop
  | empty {gap : List UInt8} : Gap gap → Document gap []
  | value {before text behind : List UInt8} {events : List JsonEvent} : Gap before →
      ValueText 19 text events true → events.head? ∈ [some .arrayBegin, some .objectBegin] →
      Gap behind → Document (before ++ (text ++ behind)) events

end Burrow.Http
