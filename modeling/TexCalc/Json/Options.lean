import TexCalc.Json.Basic
import TexCalc.Options

/-!
# Options in JSON

Options are an object with the members `strict`, `plus_minus` and `log_base`, or an array
of their values in this order.  What is missing has its default, members with other names
are passed over, and a member that is given twice is refused.
-/

namespace TexCalc

namespace Json

/-- The name of a variant, written as a string or as the only member of an object whose
value is `null`. -/
def variant? : Json → Option String
  | string text? => text?
  | object [(name?, null)] => name?
  | _ => none

end Json

namespace Sign

def name : Sign → String
  | plus => "plus"
  | minus => "minus"

def ofName? (name : String) : Option Sign :=
  [plus, minus].find? (·.name == name)

def ofJson? (json : Json) : Option Sign :=
  json.variant?.bind ofName?

end Sign

namespace LogBase

def name : LogBase → String
  | common => "common"
  | natural => "natural"

def ofName? (name : String) : Option LogBase :=
  [common, natural].find? (·.name == name)

def ofJson? (json : Json) : Option LogBase :=
  json.variant?.bind ofName?

end LogBase

namespace Options

/-- The value read from the only entry of a list, or the default of an empty list. -/
def only? {α : Type} (read? : Json → Option α) (default : α) : List Json → Option α
  | [] => some default
  | [value] => read? value
  | _ => none

/-- The options with the given values of the three members, each at most once. -/
def ofValues? (strict plusMinus logBase : List Json) : Option Options :=
  (only? Json.bool? standard.strict strict).bind fun strict =>
    (only? Sign.ofJson? standard.plusMinus plusMinus).bind fun plusMinus =>
      (only? LogBase.ofJson? standard.logBase logBase).map fun logBase =>
        { strict, plusMinus, logBase }

/-- The options that a value stands for. -/
def ofJson? : Json → Option Options
  | .object members =>
      let values (name : String) : List Json :=
        (members.filter (·.1 == some name)).map Prod.snd
      if members.all (·.1.isSome) then
        ofValues? (values "strict") (values "plus_minus") (values "log_base")
      else
        none
  | .array items =>
      if items.length ≤ 3 then
        ofValues? (items.take 1) ((items.drop 1).take 1) ((items.drop 2).take 1)
      else
        none
  | _ => none

/-- Options as an object with all three members. -/
def toJson (options : Options) : Json :=
  .record
    [("strict", .bool options.strict),
     ("plus_minus", .ofString options.plusMinus.name),
     ("log_base", .ofString options.logBase.name)]

end Options

end TexCalc
