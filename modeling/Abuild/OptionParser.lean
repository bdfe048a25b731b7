import Abuild.Basic

/-!
How `OptionParser.cc` goes through the arguments of a program. The arguments are an array that a
null pointer ends, and a pointer into it is an index: to read behind the null pointer is not
defined. What the parser does is to call functions that it was given, and the calls are its
result; a callback gets its name as `κ`.
-/

set_option autoImplicit false
set_option relaxedAutoImplicit false

namespace Abuild.OptionParser

open Std (TreeMap)

variable {κ : Type}

/-! ### Options and calls -/

inductive ArgType
  | none
  | optionalNumeric
  | numeric
  | string
  | regex
  | list
deriving DecidableEq, Repr

/-- The regular expression as the texts that it matches. -/
structure ArgumentSpecification (κ : Type) where
  argType : ArgType
  defaultValue : ℤ
  discardTermArg : Bool
  regex : String → Bool
  callback : κ

/-- The registered options. -/
abbrev Arguments (κ : Type) := TreeMap String (ArgumentSpecification κ)

/-- A number is missing where `atoi` does not define it. -/
inductive Call (κ : Type)
  | errorFn (message : String)
  | posCallback (arg : String)
  | cbVoid (callback : κ)
  | cbInt (callback : κ) (numericArg : Option ℤ)
  | cbString (callback : κ) (arg : String)
  | cbRegex (callback : κ) (arg : String)
  | cbVector (callback : κ) (args : List String)
deriving DecidableEq, Repr

/-! ### The regular expressions -/

/-- A character of `[\w-]`. -/
def isOptionChar (c : Char) : Bool := c.isAlphanum || c = '_' || c = '-'

/-- `-([a-zA-Z])(\d+)?` -/
def matchShortOption : List Char → Option (String × Option String)
  | '-' :: c :: digits =>
    if c.isAlpha && digits.all Char.isDigit then
      some (String.ofList [c], if digits.isEmpty then none else some (String.ofList digits))
    else none
  | _ => none

/-- `([a-zA-Z][\w-]+)(?:=(.*))?` -/
def matchLongName : List Char → Option (String × Option String)
  | c :: rest =>
    let name := rest.takeWhile isOptionChar
    if c.isAlpha && !name.isEmpty then
      match rest.dropWhile isOptionChar with
      | [] => some (String.ofList (c :: name), none)
      | '=' :: value => some (String.ofList (c :: name), some (String.ofList value))
      | _ => none
    else none
  | [] => none

/-- `-?-([a-zA-Z][\w-]+)(?:=(.*))?` -/
def matchLongOption : List Char → Option (String × Option String)
  | '-' :: '-' :: rest => matchLongName rest
  | '-' :: rest => matchLongName rest
  | _ => none

/-- The option and the argument that is attached to it. -/
def matchOption (arg : String) : Option (String × Option String) :=
  (matchShortOption arg.toList).or (matchLongOption arg.toList)

/-- `\d+` -/
def isNumeric (text : String) : Bool := !text.isEmpty && text.toList.all Char.isDigit

/-- The number of a text of digits, if it is an `int`. -/
def atoi (digits : String) : Option ℤ :=
  let number := digits.toList.foldl (fun n c ↦ 10 * n + (c.toNat - '0'.toNat)) 0
  if number < 2 ^ 31 then some number else none

/-! ### `handleOption` -/

/-- The null pointer at the end of the array is `some none`. -/
def deref (argv : List String) (arg : ℕ) : Option (Option String) :=
  if arg ≤ argv.length then some argv[arg]? else none

/-- The arguments of a list, from the one after `arg` on. -/
def gatherArgs (argv : List String) (argData : ArgumentSpecification κ) :
    ℕ → ℕ → List String → Option (ℕ × List String)
  | 0, _, _ => none
  | fuel + 1, arg, args => do
    match ← deref argv (arg + 1) with
    | none => some (arg, args)
    | some nextArg =>
      if argData.regex nextArg then
        some (if argData.discardTermArg then arg + 1 else arg, args)
      else gatherArgs argv argData fuel (arg + 1) (args ++ [nextArg])

/-- The word after the option, which is only looked at where no argument is attached. -/
def findNextArg (argv : List String) (attachedArg : Option String) (arg : ℕ) :
    Option (Option String) :=
  if attachedArg.isSome then some none else deref argv (arg + 1)

/-- Where the pointer is after the option, and the call. -/
def handleOption (argv : List String) (option : String) (argData : ArgumentSpecification κ)
    (attachedArg : Option String) (arg : ℕ) : Option (ℕ × Call κ) := do
  let nextArg ← findNextArg argv attachedArg arg
  let firstArg := attachedArg.or nextArg
  let afterFirst := if nextArg.isSome then arg + 1 else arg
  match argData.argType with
  | .none =>
    if attachedArg.isSome then
      some (arg, .errorFn ("option \"" ++ option ++ "\" does not take any arguments"))
    else some (arg, .cbVoid argData.callback)
  | .optionalNumeric | .numeric =>
    match firstArg.filter isNumeric with
    | some digits => some (afterFirst, .cbInt argData.callback (atoi digits))
    | none =>
      if argData.argType = .optionalNumeric ∧ attachedArg.isNone then
        some (arg, .cbInt argData.callback (some argData.defaultValue))
      else
        some (arg, .errorFn ("option \"" ++ option ++ "\"'s argument must be numeric"))
  | .string =>
    match firstArg with
    | none => some (arg, .errorFn ("option \"" ++ option ++ "\" requires an argument"))
    | some value => some (afterFirst, .cbString argData.callback value)
  | .regex =>
    match firstArg with
    | none => some (arg, .errorFn ("option \"" ++ option ++ "\" requires an argument"))
    | some value =>
      if argData.regex value then some (afterFirst, .cbRegex argData.callback value)
      else
        some (afterFirst,
          .errorFn ("invalid argument to option \"" ++ option ++ "\": \"" ++ value ++ "\""))
  | .list => do
    let (arg, args) ← gatherArgs argv argData (argv.length + 1) arg attachedArg.toList
    some (arg, .cbVector argData.callback args)

/-! ### `parseOptions` -/

def parseArg (arguments : Arguments κ) (argv : List String) (word : String) (arg : ℕ) :
    Option (ℕ × Call κ) :=
  match matchOption word with
  | some (option, attachedArg) =>
    match arguments[option]? with
    | none => some (arg, .errorFn ("unknown option \"" ++ option ++ "\""))
    | some argData => handleOption argv option argData attachedArg arg
  | none =>
    if word.toList.head? = some '-' then
      some (arg, .errorFn ("unknown argument \"" ++ word ++ "\""))
    else some (arg, .posCallback word)

def parseFrom (arguments : Arguments κ) (argv : List String) :
    ℕ → ℕ → List (Call κ) → Option (List (Call κ))
  | 0, _, _ => none
  | fuel + 1, arg, calls => do
    match ← deref argv arg with
    | none => some calls
    | some word =>
      let (arg, call) ← parseArg arguments argv word arg
      parseFrom arguments argv fuel (arg + 1) (calls ++ [call])

/-- The calls for the arguments, unless a pointer is behind the null pointer. -/
def parseOptions (arguments : Arguments κ) (argv : List String) : Option (List (Call κ)) :=
  parseFrom arguments argv (argv.length + 1) 0 []

end Abuild.OptionParser
