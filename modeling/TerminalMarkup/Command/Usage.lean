/-
Errors of usage and their wording.
-/
import TerminalMarkup.Command.Arguments
import TerminalMarkup.Files
import TerminalMarkup.Text.Quoted

namespace TerminalMarkup.Command

/-- The part of the command line that is in error. -/
inductive Scope where
  /-- What stands before the command. -/
  | program
  /-- A command and what stands after it. -/
  | verb (v : Verb)
  deriving DecidableEq, Repr

/-- Why a command line makes no sense. -/
inductive UsageFault where
  | argument (fault : ArgumentFault)
  | noCommand
  | unknownCommand (name : Text)
  /-- The value of an option is no whole number. -/
  | notInteger (flag : Flag) (value : Text)
  /-- The value of an option is a whole number below 1. -/
  | tooSmall (flag : Flag) (n : Int)
  | notReal (flag : Flag) (value : Text)
  /-- The value of an option is the path of a directory and should be that of a file. -/
  | directoryForFile (flag : Flag) (path : Text)
  /-- An input file cannot be read. -/
  | badInput (path : Text) (fault : Files.Fault)
  | missingUrl
  | extraOperands (operands : List Text)
  deriving DecidableEq, Repr

/-- The name of the program. -/
def programName : Text := "ansi2html".toText

/-- The version of the program. -/
def versionText : Text := programName ++ ", version 0.1.0\n".toText

/-- The first line of the usage. -/
def Scope.usage : Scope → Text
  | .program => "Usage: ".toText ++ programName ++ " [OPTIONS] COMMAND [ARGS]...\n".toText
  | .verb v =>
    "Usage: ".toText ++ programName ++ " ".toText ++ v.name ++ " [OPTIONS]".toText ++
      (match v with
      | .convert => " [FILES]...".toText
      | .fetch => " URL".toText
      | .css => []) ++ "\n".toText

/-- The command that shows more about the usage. -/
def Scope.helpCommand : Scope → Text
  | .program => programName ++ " --help".toText
  | .verb v => programName ++ " ".toText ++ v.name ++ " --help".toText

namespace UsageFault

/-- The start of the messages about a value. -/
def invalidValue (hint : Text) : Text := "Invalid value for ".toText ++ hint ++ ": ".toText

/-- The fault in words. -/
def message : UsageFault → Text
  | .argument (.unknownOption name) => "No such option ".toText ++ Quoted.encode name ++ ".".toText
  | .argument (.valueNotTaken name) =>
    "Option ".toText ++ Quoted.encode name ++ " does not take a value.".toText
  | .argument (.valueMissing name) =>
    "Option ".toText ++ Quoted.encode name ++ " requires an argument.".toText
  | .noCommand => "Missing command.".toText
  | .unknownCommand name => "No such command ".toText ++ Quoted.encode name ++ ".".toText
  | .notInteger flag value =>
    invalidValue flag.hint ++ Quoted.encode value ++ " is not a valid integer range.".toText
  | .tooSmall flag n =>
    invalidValue flag.hint ++ Text.ofInt n ++ " is not in the range x>=1.".toText
  | .notReal flag value =>
    invalidValue flag.hint ++ Quoted.encode value ++ " is not a valid float.".toText
  | .directoryForFile flag path =>
    invalidValue flag.hint ++ "File ".toText ++ Quoted.encode path ++ " is a directory.".toText
  | .badInput path fault =>
    invalidValue "'[FILES]...'".toText ++ "'".toText ++ path ++ "': ".toText ++ fault.message
  | .missingUrl => "Missing argument 'URL'.".toText
  | .extraOperands operands =>
    "Got unexpected extra argument".toText ++ (if operands.length = 1 then [] else "s".toText) ++
      " (".toText ++ " ".toText.intercalate operands ++ ")".toText

/-- Whether the usage is shown before the message. -/
def showsUsage : UsageFault → Bool
  | .argument (.valueNotTaken _) => false
  | .argument (.valueMissing _) => false
  | _ => true

/-- What is printed about the fault. -/
def report (scope : Scope) (fault : UsageFault) : Text :=
  (if fault.showsUsage then
    scope.usage ++ "Try '".toText ++ scope.helpCommand ++ "' for help.\n\n".toText
  else []) ++ "Error: ".toText ++ fault.message ++ "\n".toText

end UsageFault

end TerminalMarkup.Command
