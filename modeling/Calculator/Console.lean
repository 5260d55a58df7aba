/-
Expressions answered line by line.

* `Console.answer` — what is written for one expression;
* `Console.run` — what is written for an input, which ends at its first empty line.
-/
import Calculator.Session
import Calculator.Json.Writer
import Calculator.Text.Lines

namespace Calculator.Console

/-- How expressions are answered. -/
structure Options where
  /-- Write the reverse Polish form before the result. -/
  showRpn : Bool
  /-- Write records instead of text. -/
  json : Bool

/-- Answers one expression. Records are never preceded by the reverse Polish form. -/
def answer (options : Options) (s : Session) (expression : String) : String × Session :=
  if options.json then
    let (report, s) := s.report expression
    (report.toJson.write ++ "\n", s)
  else
    match s.rpn expression with
    | (.error e, s) => (s!"{expression}  ==  ERROR: {e.message}\n", s)
    | (.ok tokens, s) =>
      let form := if options.showRpn then s!"{expression}  ->  {s.format tokens}\n" else ""
      -- The tokens are evaluated as they have been written, and not read once more.
      match s.evaluateRpn tokens with
      | (.ok value, s) => (form ++ s!"{expression}  ==  {displayDouble value}\n", s)
      | (.error e, s) => (form ++ s!"{expression}  ==  ERROR: {e.message}\n", s)

/-- Answers expressions in order. -/
def answerAll (options : Options) (s : Session) : List String → String × Session
  | [] => ("", s)
  | expression :: rest =>
    let (head, s) := answer options s expression
    let (tail, s) := answerAll options s rest
    (head ++ tail, s)

/-- Why an input was not answered to its end. -/
inductive Failure where
  | notText
deriving DecidableEq, Repr

def Failure.message : Failure → String
  | .notText => "I/O error: stream did not contain valid UTF-8"

/-- What has been written, whether the input failed, and the session afterwards. -/
structure Transcript where
  output : String
  failure : Option Failure
  session : Session

/-- Answers lines up to the first that is empty. A line of white space is given back as it is, or left
out among records. A line that is no text ends everything. -/
def runLines (options : Options) (s : Session) : List (List UInt8) → Transcript
  | [] => ⟨"", none, s⟩
  | line :: rest =>
    match Lines.text? line with
    | none => ⟨"", some .notText, s⟩
    | some text =>
      -- A line of white space does not end the input.
      if text = "" then ⟨"", none, s⟩
      else
        let (head, s) :=
          if text.toList.all isBlank then (if options.json then "" else text ++ "\n", s)
          else answer options s text
        let tail := runLines options s rest
        { tail with output := head ++ tail.output }

/-- Answers an input. -/
def run (options : Options) (s : Session) (input : ByteArray) : Transcript :=
  runLines options s (Lines.cut input.toList)

end Calculator.Console
