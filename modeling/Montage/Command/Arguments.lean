import Montage.Text.Blank
import Montage.Text.Digit

/-!
Arguments of a command line. Options have a short and a long name; a long name may be cut short as
long as one option is meant, values may stand in the same argument, and short options without a
value may be joined. All arguments are classified before any option takes effect.
-/

namespace Montage.Command

/-- What an option does to the settings. -/
inductive Effect (α : Type) where
  | help
  | set (f : α → α)
  /-- takes a value, out of the choices if there are any; two dashes are no value -/
  | take (choices : List String) (f : Option String → α → α)

structure OptionRule (α : Type) where
  short : Char
  long : String
  effect : Effect α
  required : Bool := false

/-- How the arguments are understood. -/
inductive Outcome (α : Type) where
  | accepted (settings : α)
  | help
  | refused

def Outcome.map {α β : Type} (f : α → β) : Outcome α → Outcome β
  | accepted settings => accepted (f settings)
  | help => help
  | refused => refused

/-- An option that is in use, with its value if that is part of the argument. -/
abbrev Use (α : Type) := OptionRule α × Option String

/-- What an argument reads as. -/
inductive Word (α : Type) where
  | value (s : String)
  /-- the mark after which there are only values -/
  | mark
  | options (uses : List (Use α))
  | unknown
  /-- an option that takes no value, with text behind it that is no option -/
  | malformed

variable {α : Type}

def OptionRule.takesValue (rule : OptionRule α) : Bool :=
  match rule.effect with
  | .take .. => true
  | _ => false

def OptionRule.longName (rule : OptionRule α) : String := "--" ++ rule.long

def OptionRule.shortName (rule : OptionRule α) : String := .ofList ['-', rule.short]

/-- A minus and a number, with one line feed behind it or none. -/
def isNegativeNumber (s : String) : Bool :=
  let cs := s.toList
  match if cs.getLast? = some '\n' then cs.dropLast else cs with
  | '-' :: cs =>
    match cs.dropWhile Text.isDigit with
    | [] => !cs.isEmpty
    | '.' :: places => !places.isEmpty && places.all Text.isDigit
    | _ => false
  | _ => false

/-- An option by its long name, with the text behind an equals sign. -/
def longUse (rule : OptionRule α) : Option String → Word α
  | none => .options [(rule, none)]
  | some text => if rule.takesValue then .options [(rule, some text)] else .malformed

/-- The options whose long name an argument may be short for. -/
def candidates (rules : List (OptionRule α)) (name : String) : List (OptionRule α) :=
  match rules.find? (·.longName = name) with
  | some rule => [rule]
  | none => rules.filter (Text.startsWith name ·.longName)

/-- Reads an argument with two dashes; none when it may mean several options. -/
def readLong (rules : List (OptionRule α)) (s : String) : Option (Word α) :=
  let (name, text) := Text.breakOn '=' s.toList
  match candidates rules (.ofList name) with
  | [rule] => some (longUse rule (text.map .ofList))
  | [] => some (if s.toList.contains ' ' then .value s else .unknown)
  | _ => none

def Word.andBefore (use : Use α) : Word α → Word α
  | .options uses => .options (use :: uses)
  | w => w

/-- The options that an option with a text behind it stands for: one that takes a value has the text
as its value, and any other is followed by more options. -/
def joined (rules : List (OptionRule α)) (rule : OptionRule α) : List Char → Word α
  | [] => .options [(rule, none)]
  | c :: cs =>
    if rule.takesValue then .options [(rule, some (.ofList (c :: cs)))]
    else match rules.find? (·.short = c) with
      | none => .malformed
      | some next => (joined rules next cs).andBefore (rule, none)

/-- An option by its short name; an equals sign right behind the name belongs to neither side. -/
def shortUse (rules : List (OptionRule α)) (rule : OptionRule α) : List Char → Word α
  | ['='] => if rule.takesValue then .options [(rule, some "")] else .malformed
  | '=' :: cs => joined rules rule cs
  | cs => joined rules rule cs

/-- Reads an argument with one dash. -/
def readShort (rules : List (OptionRule α)) (s : String) : Word α :=
  match s.toList.drop 1 with
  | [] => .value s
  | c :: cs =>
    match rules.find? (·.short = c) with
    | some rule => shortUse rules rule cs
    | none => if isNegativeNumber s || s.toList.contains ' ' then .value s else .unknown

def Word.ofArgument (rules : List (OptionRule α)) (s : String) : Option (Word α) :=
  if Text.startsWith "--" s then readLong rules s
  else if Text.startsWith "-" s then some (readShort rules s)
  else some (.value s)

/-- Reads the arguments; those behind the mark are values. -/
def words (rules : List (OptionRule α)) : List String → Option (List (Word α))
  | [] => some []
  | s :: rest =>
    if s = "--" then some (.mark :: rest.map .value)
    else do return (← Word.ofArgument rules s) :: (← words rules rest)

/-- Whether the last option of an argument lacks its value. -/
def lacksValue (uses : List (Use α)) : Bool :=
  match uses.getLast? with
  | some (rule, none) => rule.takesValue
  | _ => false

/-- Settings so far, the names of the options that were used, and whether anything was left over. -/
structure Progress (α : Type) where
  settings : α
  seen : List String := []
  leftOver : Bool := false

/-- Lets options take effect in order, with a value for the last one if that lacks it. -/
def apply (value : String) : List (Use α) → Progress α → Except (Outcome α) (Progress α)
  | [], p => .ok p
  | (rule, text) :: rest, p =>
    let done (settings : α) : Progress α := { p with settings, seen := rule.long :: p.seen }
    match rule.effect with
    | .help => .error .help
    | .set f => apply value rest (done (f p.settings))
    | .take choices f =>
      let given := text.getD value
      if given = "--" then apply value rest (done (f none p.settings))
      else if choices.isEmpty || choices.contains given then
        apply value rest (done (f (some given) p.settings))
      else .error .refused

/-- Understands arguments that were read, given what was understood so far. -/
def understand (rules : List (OptionRule α)) :
    List (Word α) → Progress α → Except (Outcome α) (Progress α)
  | [], p => .ok p
  | .options uses :: rest, p =>
    if lacksValue uses then
      match rest with
      | .value s :: rest => do understand rules rest (← apply s uses p)
      | _ => .error .refused
    else do understand rules rest (← apply "" uses p)
  | .malformed :: _, _ => .error .refused
  | _ :: rest, p => understand rules rest { p with leftOver := true }

/-- Understands a command line. Nothing may be left over, and what is required must be there. -/
def parse (rules : List (OptionRule α)) (settings : α) (arguments : List String) : Outcome α :=
  match words rules arguments with
  | none => .refused
  | some words =>
    match understand rules words { settings } with
    | .error outcome => outcome
    | .ok p =>
      let missing := rules.any fun rule => rule.required && !p.seen.contains rule.long
      if missing || p.leftOver then .refused else .accepted p.settings

/-- The line for an option in the help of a command. -/
def OptionRule.describe (rule : OptionRule α) : String :=
  let value := match rule.effect with
    | .take [] _ => " TEXT"
    | .take choices _ => " " ++ "|".intercalate choices
    | _ => ""
  let note := if rule.required then " (required)" else ""
  s!"  {rule.shortName}, {rule.longName}{value}{note}"

def describe (rules : List (OptionRule α)) : List String := rules.map (·.describe)

/-- The option that every command has. -/
def helpRule : OptionRule α := { short := 'h', long := "help", effect := .help }

end Montage.Command
