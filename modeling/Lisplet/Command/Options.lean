import Lisplet.Eval
import Lisplet.Interpreter
import Lisplet.Text.Utf8

/-! Command-line arguments (§6.1): flags in any order before, between and behind the others. -/
namespace Lisplet.Command

inductive UsageError where
  | unknownFlag (arg : String)
  | missingValue (flag : String)
  | malformedValue (flag value : String)
  deriving DecidableEq, Repr

def UsageError.message : UsageError → String
  | .unknownFlag arg => "unknown flag: " ++ arg
  | .missingValue flag => "flag needs an argument: " ++ flag
  | .malformedValue flag value => "invalid argument " ++ Text.quoted value ++ " for " ++ flag

structure Options where
  /-- The arguments are expressions instead of file names. -/
  expression : Bool
  settings : Settings
  deriving DecidableEq, Repr

def Options.default : Options := ⟨false, ⟨defaultLimit, false, false⟩⟩

/-- Spellings of truth values. -/
def bool? (cs : List Char) : Option Bool :=
  if String.ofList cs ∈ ["1", "t", "T", "true", "TRUE", "True"] then some true
  else if String.ofList cs ∈ ["0", "f", "F", "false", "FALSE", "False"] then some false
  else none

def hexDigit? (c : Char) : Option Nat :=
  if '0' ≤ c ∧ c ≤ '9' then some (c.toNat - '0'.toNat)
  else if 'a' ≤ c ∧ c ≤ 'f' then some (c.toNat - 'a'.toNat + 10)
  else if 'A' ≤ c ∧ c ≤ 'F' then some (c.toNat - 'A'.toNat + 10)
  else none

/-- Digits in a base. One underscore may stand in front of each digit but, unless `joined`, the
first. -/
def digits? (base : Nat) : Bool → Nat → List Char → Option Nat
  | _, n, [] => some n
  | joined, n, '_' :: c :: cs =>
    if joined then
      match hexDigit? c with
      | some d => if d < base then digits? base true (n * base + d) cs else none
      | none => none
    else none
  | _, n, c :: cs =>
    match hexDigit? c with
    | some d => if d < base then digits? base true (n * base + d) cs else none
    | none => none

/-- A number with the base its first characters tell: `0x`, `0o` or a bare `0`, `0b`, else ten. -/
def natural? : List Char → Option Nat
  | [] => none
  | ['0'] => some 0
  | '0' :: c :: cs =>
    let body (base : Nat) := if cs.isEmpty then none else digits? base true 0 cs
    if c = 'x' ∨ c = 'X' then body 16
    else if c = 'o' ∨ c = 'O' then body 8
    else if c = 'b' ∨ c = 'B' then body 2
    else digits? 8 true 0 (c :: cs)
  | cs => digits? 10 false 0 cs

/-- A signed number of 64 bits. -/
def signed? (cs : List Char) : Option Int :=
  let n? : Option Int := match cs with
    | '-' :: cs => (natural? cs).map fun n => -n
    | '+' :: cs => (natural? cs).map fun n => n
    | cs => (natural? cs).map fun n => n
  n?.filter fun n => Int64.minValue.toInt ≤ n ∧ n ≤ Int64.maxValue.toInt

inductive Switch where
  | expression
  | trace
  | listing
  deriving DecidableEq, Repr

inductive Flag where
  | switch (s : Switch)
  | maxDepth
  deriving DecidableEq, Repr

def Flag.ofName? : String → Option Flag
  | "expression" => some (.switch .expression)
  | "trace" => some (.switch .trace)
  | "ast" => some (.switch .listing)
  | "max-depth" => some .maxDepth
  | _ => none

namespace Options

def set (o : Options) (s : Switch) (b : Bool) : Options :=
  match s with
  | .expression => { o with expression := b }
  | .trace => { o with settings.trace := b }
  | .listing => { o with settings.listing := b }

/-- Gives a flag a value. -/
def assign (o : Options) (name : String) (flag : Flag) (value : List Char) :
    Except UsageError Options :=
  let malformed := UsageError.malformedValue name (String.ofList value)
  match flag with
  | .switch s =>
    match bool? value with
    | some b => .ok (o.set s b)
    | none => .error malformed
  | .maxDepth =>
    match signed? value with
    | some n => .ok { o with settings.limit := n }
    | none => .error malformed

/-- Short flags, several of which may follow one dash; there is only one. -/
def short (o : Options) : List Char → Except UsageError Options
  | [] => .ok o
  | 'e' :: '=' :: c :: cs => o.assign "-e" (.switch .expression) (c :: cs)
  | 'e' :: cs => (o.set .expression true).short cs
  | c :: _ => .error (.unknownFlag (String.ofList ['-', c]))

end Options

/-- What an argument is by its first characters. -/
inductive Arg where
  /-- Two dashes: all that follows are no flags. -/
  | endOfFlags
  | long (name value : List Char) (hasValue : Bool)
  | short (flags : List Char)
  | plain
  deriving DecidableEq, Repr

def Arg.classify : List Char → Arg
  | ['-', '-'] => .endOfFlags
  | '-' :: '-' :: cs =>
    .long (cs.takeWhile (· ≠ '=')) ((cs.dropWhile (· ≠ '=')).drop 1) (cs.contains '=')
  | '-' :: c :: cs => .short (c :: cs)
  | _ => .plain

/-- The options, and the arguments that are no flags. -/
def parseArgs (o : Options) : List (List UInt8) → Except UsageError (Options × List (List UInt8))
  | [] => .ok (o, [])
  | arg :: args =>
    match Arg.classify (Text.Utf8.decode arg) with
    | .endOfFlags => .ok (o, args)
    | .plain => (parseArgs o args).map fun (o, rest) => (o, arg :: rest)
    | .short flags => do parseArgs (← o.short flags) args
    | .long name value hasValue =>
      let flag := "--" ++ String.ofList name
      match Flag.ofName? (String.ofList name) with
      | none => .error (.unknownFlag flag)
      | some f =>
        if hasValue then do parseArgs (← o.assign flag f value) args
        else match f, args with
          | .switch s, args => parseArgs (o.set s true) args
          | .maxDepth, [] => .error (.missingValue flag)
          | .maxDepth, value :: args => do
            parseArgs (← o.assign flag f (Text.Utf8.decode value)) args

end Lisplet.Command
