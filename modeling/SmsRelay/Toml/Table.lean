import SmsRelay.Toml.Value

/-!
# Building TOML tables

A table is built by keys, which may be dotted, and by headers. Each part of a dotted key but the
last names a table that came about in the same way; a header may pass through every table that is
not written between braces, and through the last table of a list that headers have made.
-/

namespace SmsRelay.Toml

namespace Members

/-- Puts a value under a dotted key, if nothing stands there and the tables on the way may grow. -/
def putDotted? (v : Value) : List String → Members → Option Members
  | [], _ => none
  | [key], ms => if (ms.get? key).isSome then none else some (ms.put key v)
  | key :: path, ms =>
    match ms.get? key with
    | none => (putDotted? v path []).map fun sub => ms.put key (.table .dotted sub)
    | some (.table .dotted sub) =>
      (putDotted? v path sub).map fun sub => ms.put key (.table .dotted sub)
    | some (.table .passing sub) =>
      if path.length = 1 then none
      else (putDotted? v path sub).map fun sub => ms.put key (.table .passing sub)
    | some (.list true items) =>
      match items.getLast? with
      | some (.table form sub) =>
        if path.length = 1 then none
        else (putDotted? v path sub).map fun sub =>
          ms.put key (.list true (items.dropLast ++ [.table form sub]))
      | _ => none
    | some _ => none

/-- Changes the table that a header names; tables that are absent on the way are made. -/
def within? (f : Members → Option Members) : List String → Members → Option Members
  | [], ms => f ms
  | key :: path, ms =>
    match ms.get? key with
    | none => (within? f path []).map fun sub => ms.put key (.table .passing sub)
    | some (.table form sub) =>
      if form = .braces then none
      else (within? f path sub).map fun sub => ms.put key (.table form sub)
    | some (.list true items) =>
      match items.getLast? with
      | some (.table form sub) =>
        (within? f path sub).map fun sub =>
          ms.put key (.list true (items.dropLast ++ [.table form sub]))
      | _ => none
    | some _ => none

/-- Begins the table of a key, which may only have been passed through so far. -/
def openTable? (key : String) (ms : Members) : Option Members :=
  match ms.get? key with
  | none => some (ms.put key (.table .header []))
  | some (.table .passing sub) => some (ms.put key (.table .header sub))
  | some _ => none

/-- Begins one more table in the list of a key. -/
def openItem? (key : String) (ms : Members) : Option Members :=
  match ms.get? key with
  | none => some (ms.put key (.list true [.table .header []]))
  | some (.list true items) => some (ms.put key (.list true (items ++ [.table .header []])))
  | some _ => none

end Members

end SmsRelay.Toml
