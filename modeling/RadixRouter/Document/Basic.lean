/-
# Documents

Configurations and route tables are read from documents: scalars, lists, and records of
named values.  A scalar keeps its text and whether it was quoted, because a plain `true`
can be read as a flag and a quoted one cannot.

Readers answer `none` for a document of the wrong shape.  Two dialects differ in what they
accept for a record, see `Dialect`.
-/

namespace RadixRouter

/-- How a scalar was written. -/
inductive ScalarStyle where
  | plain | quoted
deriving DecidableEq

/-- A tree of scalars, lists and records; a record keeps the order of its entries, and its keys
can be of any shape. -/
inductive Document where
  | scalar (style : ScalarStyle) (text : String)
  | list (items : List Document)
  | record (entries : List (Document × Document))
deriving Inhabited

/-- What else may stand for a record or list. -/
structure Dialect where
  /-- A list of values, for the fields in order. -/
  positional : Bool
  /-- A plain scalar without text, for a record or list without entries. -/
  emptyScalar : Bool

/-- The dialect of configurations. -/
def Dialect.configuration : Dialect := { positional := true, emptyScalar := false }

/-- The dialect of route tables. -/
def Dialect.table : Dialect := { positional := false, emptyScalar := true }

namespace Document

/-- The text of any scalar. -/
def text? : Document → Option String
  | .scalar _ text => some text
  | _ => none

/-- Text that may be left out: a plain null stands for none. -/
def optionalText? : Document → Option (Option String)
  | .scalar .plain text =>
    if ["", "~", "null", "Null", "NULL"].contains text then some none else some (some text)
  | .scalar .quoted text => some (some text)
  | _ => none

/-- A flag: one of the plain words for true and false. -/
def flag? : Document → Option Bool
  | .scalar .plain text =>
    if ["true", "True", "TRUE"].contains text then some true
    else if ["false", "False", "FALSE"].contains text then some false
    else none
  | _ => none

/-- The value of a digit in bases up to sixteen. -/
def digit? (base : Nat) (c : Char) : Option Nat :=
  let value :=
    if '0' ≤ c && c ≤ '9' then c.toNat - 48
    else if 'a' ≤ c && c ≤ 'f' then c.toNat - 87
    else if 'A' ≤ c && c ≤ 'F' then c.toNat - 55
    else 16
  if value < base then some value else none

/-- The number written by one or more digits. -/
def digits? (base : Nat) (digits : List Char) : Option Nat :=
  if digits.isEmpty then none
  else digits.foldl (fun n c => do return (← n) * base + (← digit? base c)) (some 0)

/-- A number without a sign, or with a plus sign: decimal without superfluous zeros, or with
one of the marks `0x`, `0o`, `0b`. -/
def numberOfChars? (chars : List Char) : Option Nat :=
  let unsigned := match chars with
    | '+' :: rest => rest
    | _ => chars
  match unsigned with
  | '0' :: 'x' :: rest => digits? 16 rest
  | '0' :: 'o' :: rest => digits? 8 rest
  | '0' :: 'b' :: rest => digits? 2 rest
  | '0' :: _ :: _ => none
  | _ => digits? 10 unsigned

/-- A plain number below a bound. -/
def numberBelow? (bound : Nat) : Document → Option Nat
  | .scalar .plain text =>
    match numberOfChars? text.toList with
    | some n => if n < bound then some n else none
    | none => none
  | _ => none

end Document

namespace Dialect

/-- The items of a list. -/
def items? (dialect : Dialect) : Document → Option (List Document)
  | .list items => some items
  | .scalar .plain text => if dialect.emptyScalar && text = "" then some [] else none
  | _ => none

/-- The fields of a record among the given names.  All keys must be scalars.  Other fields are
ignored; none of these may be given twice. -/
def fields? (dialect : Dialect) (names : List String) :
    Document → Option (List (String × Document))
  | .record entries => do
    let fields ← entries.mapM fun (key, value) => key.text?.map (·, value)
    let known := fields.filter fun (name, _) => names.contains name
    if known.all fun (name, _) => known.countP (·.1 = name) = 1 then return known else none
  | .list items =>
    if dialect.positional && items.length ≤ names.length then some (names.zip items) else none
  | .scalar .plain text => if dialect.emptyScalar && text = "" then some [] else none
  | .scalar .quoted _ => none

end Dialect

/-- A field that may be left out. -/
def fieldOr {β : Type} (fields : List (String × Document)) (name : String)
    (read : Document → Option β) (absent : β) : Option β :=
  match fields.lookup name with
  | none => some absent
  | some document => read document

/-- A field that must be given. -/
def requiredField {β : Type} (fields : List (String × Document)) (name : String)
    (read : Document → Option β) : Option β :=
  (fields.lookup name).bind read

end RadixRouter
