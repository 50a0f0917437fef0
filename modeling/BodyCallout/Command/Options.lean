import BodyCallout.Text.Scan

set_option autoImplicit false

namespace BodyCallout

/-- `takes` tells which values the option can have, `none` if it has none. -/
structure OptionSpec where
  long : String
  short : Option Char
  takes : Option (String → Bool)
  repeatable : Bool

abbrev Given := List (String × String)

inductive Arguments where
  | given (options : Given)
  | help
  | misuse
  deriving DecidableEq, Repr

namespace OptionSpec

def helpName : String := "help"

def helpLetter : Char := 'h'

/-- Takes an option down, unless its value is none of its own or it was given before. -/
def record (spec : OptionSpec) (value : String) (before : Given) : Option Given :=
  let fits := match spec.takes with
    | some check => check value
    | none => true
  let again := !spec.repeatable && before.any fun g => g.1 = spec.long
  if fits && !again then some (before ++ [(spec.long, value)]) else none

def looksLikeOption (arg : String) : Bool := arg.length ≠ 1 && arg.toList.head? = some '-'

def splitEquals (text : List Char) : List Char × Option (List Char) :=
  match text.dropWhile (· ≠ '=') with
  | [] => (text, none)
  | _ :: value => (text.takeWhile (· ≠ '='), some value)

def fetch (attached : Option (List Char)) : List String → Option (String × List String)
  | next :: rest =>
    match attached with
    | some value => some (String.ofList value, next :: rest)
    | none => if looksLikeOption next then none else some (next, rest)
  | [] => attached.map fun value => (String.ofList value, [])

inductive Step where
  | on (options : Given) (rest : List String)
  | help
  | misuse

def valued (spec : OptionSpec) (attached : Option (List Char)) (before : Given)
    (rest : List String) : Step :=
  match fetch attached rest with
  | none => .misuse
  | some (value, rest) =>
    match spec.record value before with
    | none => .misuse
    | some options => .on options rest

def longStep (specs : List OptionSpec) (text : List Char) (before : Given) (rest : List String) :
    Step :=
  let (name, value) := splitEquals text
  if String.ofList name = helpName then if value.isNone then .help else .misuse
  else
    match specs.find? fun s => s.long.toList = name with
    | none => .misuse
    | some spec =>
      if spec.takes.isSome then valued spec value before rest
      else if value.isSome then .misuse
      else
        match spec.record "" before with
        | none => .misuse
        | some options => .on options rest

/-- Letters may stand together; the first that has a value takes what follows it. -/
def shortStep (specs : List OptionSpec) (before : Given) (rest : List String) :
    List Char → Step
  | [] => .on before rest
  | c :: more =>
    if c = helpLetter then .help
    else
      match specs.find? fun s => s.short = some c with
      | none => .misuse
      | some spec =>
        if spec.takes.isSome then
          let attached := match more with
            | [] => none
            | '=' :: value => some value
            | value => some value
          valued spec attached before rest
        else
          match spec.record "" before with
          | none => .misuse
          | some options => shortStep specs options rest more

def readFrom (specs : List OptionSpec) : Nat → Given → List String → Arguments
  | _, before, [] => .given before
  | 0, _, _ :: _ => .misuse
  | fuel + 1, before, arg :: rest =>
    let step : Step := match arg.toList with
      | ['-', '-'] => if rest.isEmpty then .on before [] else .misuse
      | '-' :: '-' :: text => longStep specs text before rest
      | '-' :: c :: text => shortStep specs before rest (c :: text)
      | _ => .misuse
    match step with
    | .on options rest => readFrom specs fuel options rest
    | .help => .help
    | .misuse => .misuse

def read (specs : List OptionSpec) (args : List String) : Arguments :=
  readFrom specs args.length [] args

end OptionSpec

def Given.value? (g : Given) (long : String) : Option String :=
  (g.find? fun o => o.1 = long).map Prod.snd

def Given.values (g : Given) (long : String) : List String :=
  (g.filter fun o => o.1 = long).map Prod.snd

def Given.has (g : Given) (long : String) : Bool := (g.value? long).isSome

/-- A number below `2 ^ 64`, perhaps with a plus sign. -/
def wordOf? (text : String) : Option UInt64 :=
  let digits := match text.toList with
    | '+' :: rest => rest
    | cs => cs
  match Scan.many (Scan.digit 10) digits with
  | (d :: ds, []) =>
    let n := Scan.ofDigits 10 (d :: ds)
    if n < UInt64.size then some n.toUInt64 else none
  | _ => none

end BodyCallout
