/-!
# Options among arguments

Tells options and their values from the other arguments. The rules are those of the library that
reads the arguments, of which it is assumed that

* an option is written as `--name`, with its value behind it or attached by an equals sign, or as a
  hyphen and a letter, with its value behind it or attached directly;
* a value may look like an option, and of an option given twice the last one counts;
* names are not shortened, and two hyphens alone end the options.
-/

namespace TextTidy.CommandLine

/-- How an option is written. Only options with a value have letters. -/
structure OptionForm (ο : Type) where
  /-- What it stands for. -/
  option : ο
  /-- Its name, with the hyphens. -/
  name : String
  /-- Its letter, if it has one. -/
  letter : Option Char
  /-- Whether it takes a value. -/
  takesValue : Bool

/-- An option that takes a value. -/
def OptionForm.valued {ο : Type} (option : ο) (name : String) (letter : Option Char) :
    OptionForm ο := ⟨option, name, letter, true⟩

/-- An option without a value. -/
def OptionForm.flag {ο : Type} (option : ο) (name : String) : OptionForm ο :=
  ⟨option, name, none, false⟩

/-- Why options cannot be understood. -/
inductive OptionError where
  | unknown (argument : String)
  | lacksValue (name : String)
  | takesNoValue (name : String)
deriving DecidableEq, Repr

/-- What was found among arguments. -/
structure Found (ο : Type) where
  /-- The options in order, each with its value if it takes one. -/
  options : List (ο × Option String)
  /-- The other arguments in order. -/
  others : List String

namespace Found

variable {ο : Type}

/-- The same with an option in front. -/
def withOption (option : ο) (value : Option String) (found : Found ο) : Found ο :=
  ⟨(option, value) :: found.options, found.others⟩

/-- The same with another argument in front. -/
def withOther (argument : String) (found : Found ο) : Found ο :=
  ⟨found.options, argument :: found.others⟩

/-- The value of an option; the last one given counts. -/
def value? [DecidableEq ο] (found : Found ο) (option : ο) : Option String :=
  (found.options.reverse.lookup option).join

/-- Whether an option is given. -/
def has [DecidableEq ο] (found : Found ο) (option : ο) : Bool :=
  found.options.any (·.1 == option)

end Found

/-- What an argument that looks like an option says. -/
structure Reading (ο : Type) where
  /-- Which option it is. -/
  form : OptionForm ο
  /-- The value attached to it, if there is one. -/
  attached : Option String

/-- An argument cut at its first equals sign. -/
def cutAtEquals (argument : String) : String × Option String :=
  let characters := argument.toList
  match characters.dropWhile (· != '=') with
  | [] => (argument, none)
  | _ :: value => (String.ofList (characters.takeWhile (· != '=')), some (String.ofList value))

/-- Reads an argument that begins with a hyphen. Whole names are tried first; a name with two
    hyphens is never taken for letters. -/
def readOption {ο : Type} (forms : List (OptionForm ο)) (argument : String) :
    Except OptionError (Reading ο) :=
  let (name, attached) := cutAtEquals argument
  match forms.find? (·.name == name) with
  | some form => .ok ⟨form, attached⟩
  | none =>
    match argument.toList with
    | '-' :: letter :: more =>
      if letter == '-' then .error (.unknown name)
      else
        match forms.find? (·.letter == some letter) with
        | some form => .ok ⟨form, if more.isEmpty then none else some (String.ofList more)⟩
        | none => .error (.unknown (String.ofList ['-', letter]))
    | _ => .error (.unknown argument)

/-- Whether an argument looks like an option. -/
def looksLikeOption (argument : String) : Bool :=
  match argument.toList with
  | '-' :: _ :: _ => true
  | _ => false

/-- Tells options from other arguments. Options may stand behind other arguments when `mixed`;
    otherwise the first other argument ends them. -/
def findOptions {ο : Type} (forms : List (OptionForm ο)) (mixed : Bool) :
    List String → Except OptionError (Found ο)
  | [] => .ok ⟨[], []⟩
  | argument :: rest =>
    if argument == "--" then .ok ⟨[], rest⟩
    else if looksLikeOption argument then
      match readOption forms argument with
      | .error e => .error e
      | .ok ⟨form, attached⟩ =>
        match form.takesValue, attached with
        | true, some value =>
          (findOptions forms mixed rest).map (·.withOption form.option (some value))
        | true, none =>
          match rest with
          | [] => .error (.lacksValue form.name)
          | value :: rest =>
            (findOptions forms mixed rest).map (·.withOption form.option (some value))
        | false, none => (findOptions forms mixed rest).map (·.withOption form.option none)
        | false, some _ => .error (.takesNoValue form.name)
    else if mixed then (findOptions forms mixed rest).map (·.withOther argument)
    else .ok ⟨[], argument :: rest⟩

end TextTidy.CommandLine
