/-
The command line.

* `Arguments.parse?` — arguments sorted into options and expressions;
* `CommandLine.run` — what the program writes and the status that it ends with.
-/
import Calculator.Console
import Calculator.Extension
import Calculator.Listing

namespace Calculator

/-- What the program is asked to do. -/
structure Arguments where
  extensions : List String
  showRpn : Bool
  json : Bool
  list : Bool
  expressions : List String

namespace Arguments

def empty : Arguments := ⟨[], false, false, false, []⟩

/-- Adds arguments to those known. A flag must not be given twice, and a name of an extension must not
look like an option. A single minus sign is an expression. -/
def add? (a : Arguments) : List String → Option Arguments
  | [] => some a
  -- What follows is no option, whatever it looks like.
  | "--" :: rest => some { a with expressions := a.expressions ++ rest }
  | "--show-rpn" :: rest => if a.showRpn then none else { a with showRpn := true }.add? rest
  | "--json" :: rest => if a.json then none else { a with json := true }.add? rest
  | "--list" :: rest => if a.list then none else { a with list := true }.add? rest
  | ["--ext"] => none
  | "--ext" :: name :: rest =>
    if name.startsWith "-" && name ≠ "-" then none
    else { a with extensions := a.extensions ++ [name] }.add? rest
  | argument :: rest =>
    if argument.startsWith "--ext=" then
      { a with extensions := a.extensions ++ [(argument.drop 6).toString] }.add? rest
    else if argument.startsWith "-" && argument ≠ "-" then none
    else { a with expressions := a.expressions ++ [argument] }.add? rest

def parse? (arguments : List String) : Option Arguments := empty.add? arguments

end Arguments

namespace CommandLine

/-- Why the program fails. -/
inductive Failure where
  | unknownExtension (name : String)
  | registration (e : RegistrationError)
  | console (failure : Console.Failure)

def Failure.message : Failure → String
  | .unknownExtension name =>
    let available := ", ".intercalate (Extension.all.map Extension.name)
    s!"unknown extension '{name}' (available: {available})"
  | .registration e => s!"failed to register extensions: {e.message}"
  | .console failure => failure.message

/-- What the program writes and how it ends. -/
structure Outcome where
  output : String
  failure : Option Failure

/-- The extensions of some names, or the first name that is none; all standard ones if no name is
given. -/
def select : List String → Except Failure (List Extension)
  | [] => .ok Extension.all
  | names => names.mapM fun name =>
    match Extension.ofName? name with
    | some e => .ok e
    | none => .error (.unknownExtension name)

/-- Does what is asked. Listing the registry comes before expressions, and expressions before the
input. -/
def execute (a : Arguments) (input : ByteArray) : Outcome :=
  match select a.extensions with
  | .error failure => ⟨"", some failure⟩
  | .ok extensions =>
    match Session.ofRegistrations (extensions.flatMap Extension.registrations) with
    | .error e => ⟨"", some (.registration e)⟩
    | .ok session =>
      let options : Console.Options := ⟨a.showRpn, a.json⟩
      if a.list then ⟨session.registry.describe.toJson.writeIndented ++ "\n", none⟩
      else if a.expressions ≠ [] then
        ⟨(Console.answerAll options session a.expressions).1, none⟩
      else
        let transcript := Console.run options session input
        ⟨transcript.output, transcript.failure.map .console⟩

/-- The status of an outcome. -/
def Outcome.status (o : Outcome) : UInt8 := if o.failure.isSome then 1 else 0

/-- What is written to the error output. -/
def Outcome.errorOutput (o : Outcome) : String :=
  match o.failure with
  | some failure => s!"rpncalc: {failure.message}\n"
  | none => ""

/-- The status for arguments that cannot be understood. -/
def usageStatus : UInt8 := 2

end CommandLine

end Calculator
