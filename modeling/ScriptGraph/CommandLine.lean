import ScriptGraph.Fixture.Path
import ScriptGraph.Text.Digit
import ScriptGraph.Text.Lines
import ScriptGraph.Text.Quoted

/-!
The command line of the fixture runner. Every argument is first read on its own
(as an option, possibly abbreviated or with a value of its own, or as a plain
argument) and only then are options carried out from left to right.
-/

namespace ScriptGraph
namespace CommandLine

inductive Opt
  | help
  | directory
  | verbose
  | failFast
  deriving DecidableEq

namespace Opt

/-- The names of every option, in the order in which candidates are listed. -/
def table : List (String × Opt) :=
  [("-h", help), ("--help", help), ("--fixtures-dir", directory), ("--verbose", verbose),
    ("-v", verbose), ("--fail-fast", failFast), ("-x", failFast)]

/-- The names of an option as messages give them. -/
def title (opt : Opt) : String :=
  "/".intercalate ((table.filter (·.2 = opt)).map Prod.fst)

def takesValue (opt : Opt) : Bool :=
  opt = directory

end Opt

/-- The directory that was asked for. An option whose value was taken away by the mark that
ends options leaves an empty choice. -/
inductive Choice
  | unset
  | path (p : Path)
  | blank
  deriving DecidableEq

def Choice.text? : Choice → Option String
  | unset => none
  | path p => some p.text
  | blank => some "[]"

/-- The path to look at; an empty choice is as good as none. -/
def Choice.path? : Choice → Option Path
  | path p => some p
  | unset | blank => none

structure Options where
  directory : Choice
  verbose : Bool
  failFast : Bool
  deriving DecidableEq

def Options.default : Options :=
  ⟨.unset, false, false⟩

/-- Why there is nothing to run. -/
inductive Refusal
  | helpWanted
  | unrecognized (args : List String)
  | valueMissing (opt : Opt)
  | ambiguous (arg : String) (candidates : List String)
  | valueUnwanted (opt : Opt) (value : String)
  deriving DecidableEq

namespace Refusal

def complaint : Refusal → String
  | helpWanted => ""
  | unrecognized args => "unrecognized arguments: " ++ " ".intercalate args
  | valueMissing opt => "argument " ++ opt.title ++ ": expected one argument"
  | ambiguous arg candidates =>
    "ambiguous option: " ++ arg ++ " could match " ++ ", ".intercalate candidates
  | valueUnwanted opt value =>
    "argument " ++ opt.title ++ ": ignored explicit argument " ++ quote value

def helpText : String :=
  "usage: run_fixtures.py [-h] [--fixtures-dir FIXTURES_DIR] [--verbose]\n" ++
  "                       [--fail-fast]\n\n" ++
  "Run jsir golden-output fixtures\n\n" ++
  "options:\n" ++
  "  -h, --help            show this help message and exit\n" ++
  "  --fixtures-dir FIXTURES_DIR\n" ++
  "                        Directory containing fixtures (default:\n" ++
  "                        ../tests/fixtures)\n" ++
  "  --verbose, -v         Enable verbose output\n" ++
  "  --fail-fast, -x       Stop on first failure\n"

def code : Refusal → Nat
  | helpWanted => 0
  | unrecognized _ | valueMissing _ | ambiguous _ _ | valueUnwanted _ _ => 2

def output : Refusal → String
  | helpWanted => helpText
  | unrecognized _ | valueMissing _ | ambiguous _ _ | valueUnwanted _ _ => ""

/-- What goes to the error channel; for help that is nothing. -/
def warning? : Refusal → Option String
  | helpWanted => none
  | refusal => some ("run_fixtures.py: error: " ++ refusal.complaint)

/-- The last line on the error channel. An argument with newlines in it, given back in a
complaint, makes more than one line of it. -/
def message? (refusal : Refusal) : Option String :=
  refusal.warning?.map fun text => String.ofList (Lines.last text.toList)

end Refusal

/-- An option as it was written: by its long or its short name, and with the value, if any,
that is part of the same argument. -/
structure Mention where
  opt : Opt
  isShort : Bool
  value : Option String
  deriving DecidableEq

/-- What a single argument is. -/
inductive Token
  | plain (arg : String)
  | unknown (arg : String)
  | option (mention : Mention)
  /-- The mark `--`. -/
  | mark
  deriving DecidableEq

def isShortName (name : String) : Bool :=
  name.toList.take 2 ≠ ['-', '-']

/-- Digits, possibly with a point before the last of them; a newline may end the text. -/
def isNumeral (text : List Char) : Bool :=
  let text := if text.getLast? = some '\n' then text.dropLast else text
  let rest := text.dropWhile isDecimalDigit
  match rest with
  | [] => text ≠ []
  | '.' :: decimals => decimals ≠ [] && decimals.all isDecimalDigit
  | _ :: _ => false

def isNegativeNumeral : List Char → Bool
  | '-' :: text => isNumeral text
  | _ => false

/-- The part before the first equals sign and, if there is one, the part after it. -/
def divide (arg : String) : String × Option String :=
  match Pieces.cut '=' arg.toList with
  | (name, []) => (String.ofList name, none)
  | (name, pieces) => (String.ofList name, some (String.ofList (Pieces.join '=' pieces)))

/-- The options that an argument abbreviates. A long name may be cut off anywhere; a short
one is followed by its value at once. -/
def candidates (arg : String) : List (String × Mention) :=
  if isShortName arg then
    Opt.table.filterMap fun (name, opt) =>
      if name.toList = arg.toList.take 2 then
        some (name, ⟨opt, true, some (String.ofList (arg.toList.drop 2))⟩)
      else none
  else
    match divide arg with
    | (start, value) =>
      Opt.table.filterMap fun (name, opt) =>
        if start.toList.isPrefixOf name.toList then some (name, ⟨opt, isShortName name, value⟩)
        else none

/-- Read one argument on its own. -/
def read (arg : String) : Except Refusal Token :=
  if arg.toList.head? ≠ some '-' then .ok (.plain arg)
  else
    match Opt.table.lookup arg with
    | some opt => .ok (.option ⟨opt, isShortName arg, none⟩)
    | none =>
      if arg.length = 1 then .ok (.plain arg)
      else
        match divide arg with
        | (name, value) =>
          match (if value.isSome then Opt.table.lookup name else none) with
          | some opt => .ok (.option ⟨opt, isShortName name, value⟩)
          | none =>
            match candidates arg with
            | [(_, mention)] => .ok (.option mention)
            | [] =>
              if isNegativeNumeral arg.toList || arg.toList.contains ' ' then .ok (.plain arg)
              else .ok (.unknown arg)
            | several => .error (.ambiguous arg (several.map Prod.fst))

/-- Read all arguments; after the mark everything is plain. -/
def readAll : List String → Except Refusal (List Token)
  | [] => .ok []
  | arg :: args =>
    if arg = "--" then .ok (.mark :: args.map .plain)
    else do
      let token ← read arg
      return token :: (← readAll args)

/-- The options named by one argument, and whether the last still needs a value. A short
option without a value is followed by further short options. -/
def cluster : List Char → Opt → Bool → Except Refusal (List (Opt × Option String))
  | value, opt, isShort =>
    if opt.takesValue then .ok [(opt, some (String.ofList value))]
    else
      match isShort, value with
      | true, c :: rest =>
        match Opt.table.lookup (String.ofList ['-', c]) with
        | some next =>
          if rest = [] then .ok [(opt, none), (next, none)]
          else do return (opt, none) :: (← cluster rest next true)
        | none => .error (.valueUnwanted opt (String.ofList value))
      | _, _ => .error (.valueUnwanted opt (String.ofList value))

def expand (mention : Mention) : Except Refusal (List (Opt × Option String)) :=
  match mention.value with
  | none => .ok [(mention.opt, none)]
  | some value => cluster value.toList mention.opt mention.isShort

/-- Carry out one option. -/
def apply (options : Options) : Opt × Option String → Except Refusal Options
  | (.help, _) => .error .helpWanted
  | (.verbose, _) => .ok { options with verbose := true }
  | (.failFast, _) => .ok { options with failFast := true }
  | (.directory, none) => .error (.valueMissing .directory)
  | (.directory, some value) =>
    .ok { options with
      directory := if value = "--" then .blank else .path (Path.ofString value) }

/-- Carry out tokens from left to right. What is neither an option nor the value of one is
collected and refused at the end. -/
def carryOut (options : Options) (extra : List String) : List Token → Except Refusal Options
  | [] => if extra = [] then .ok options else .error (.unrecognized extra)
  | .plain arg :: tokens | .unknown arg :: tokens => carryOut options (extra ++ [arg]) tokens
  | .mark :: tokens => carryOut options (extra ++ ["--"]) tokens
  | [.option mention] => do
    let options ← (← expand mention).foldlM apply options
    carryOut options extra []
  | .option mention :: next :: tokens => do
    let named ← expand mention
    match mention.value, mention.opt.takesValue, next with
    | none, true, .plain value =>
      carryOut (← apply options (mention.opt, some value)) extra tokens
    | _, _, _ => carryOut (← named.foldlM apply options) extra (next :: tokens)

def parse (args : List String) : Except Refusal Options := do
  carryOut .default [] (← readAll args)

end CommandLine
end ScriptGraph
