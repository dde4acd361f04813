import SmsRelay.Text.Utf8

/-!
# Resources

What the paths of requests name, and which methods each of these takes. A path is compared as it is
written, and only then are the escapes in its key read: a percent sign before two hexadecimal digits
stands for a byte, and any other for itself.
-/

namespace SmsRelay.Http

/-- The value of a hexadecimal digit. -/
def hexValue? (c : Char) : Option Nat :=
  if c.isDigit then some (c.toNat - 48)
  else if 'a' ≤ c.toLower && c.toLower ≤ 'f' then some (c.toLower.toNat - 87)
  else none

/-- The byte of two hexadecimal digits. -/
def hexByte? (a b : Char) : Option UInt8 :=
  match hexValue? a, hexValue? b with
  | some m, some n => some (m * 16 + n).toUInt8
  | _, _ => none

/-- The bytes that a part of a path stands for. -/
def percentDecode : List Char → Bytes
  | [] => []
  | '%' :: a :: b :: rest =>
    match hexByte? a b with
    | some byte => byte :: percentDecode rest
    | none => String.utf8EncodeChar '%' ++ percentDecode (a :: b :: rest)
  | c :: rest => String.utf8EncodeChar c ++ percentDecode rest

/-- What a path names; a key is none if its bytes are not text. -/
inductive Resource where
  | health
  | sending
  | block (key? : Option String)
  | messages
  | messagesOf (key? : Option String)
  deriving DecidableEq, Repr

/-- The path of a target, without what follows it. -/
def pathOf (target : String) : List Char := target.toList.takeWhile fun c => c ≠ '?' ∧ c ≠ '#'

/-- The key that a part of a path spells. -/
def keyOf (part : List Char) : Option String := (percentDecode part).text?

/-- The resource of a target. -/
def Resource.ofTarget? (target : String) : Option Resource :=
  match (pathOf target).splitOn '/' with
  | [[], name] =>
    if name = "ping".toList then some .health
    else if name = "send".toList then some .sending
    else if name = "messages".toList then some .messages
    else none
  | [[], name, key] =>
    if key = [] then none
    else if name = "block".toList then some (.block (keyOf key))
    else if name = "messages".toList then some (.messagesOf (keyOf key))
    else none
  | _ => none

/-- The methods of a resource. -/
inductive Method where
  | get
  | post
  | delete
  deriving DecidableEq, Repr

/-- The methods that a resource takes. -/
def Resource.methods : Resource → List Method
  | .health | .messagesOf _ => [.get]
  | .sending => [.post]
  | .block _ | .messages => [.get, .post, .delete]

/-- The names under which a method is asked for; what can be got can also be asked for without its
body. -/
def Method.names : Method → List String
  | get => ["GET", "HEAD"]
  | post => ["POST"]
  | delete => ["DELETE"]

/-- The names of the methods that a resource takes. -/
def Resource.allow (r : Resource) : List String := r.methods.flatMap Method.names

/-- The method of a name, if a resource takes it. -/
def Resource.method? (r : Resource) (name : String) : Option Method :=
  r.methods.find? fun m => m.names.contains name

end SmsRelay.Http
