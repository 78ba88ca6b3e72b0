import RouteScribe.CommandLine.Command
import RouteScribe.Document.Node

/-!
# RouteScribe.CommandLine.Refusal

Why a command line is not carried out: it asks for help or for the version, or it is not well
formed.
-/

namespace RouteScribe
namespace CommandLine

inductive Refusal where
  /-- The help on a command was asked for. -/
  | help (c : Command)
  | version
  /-- A command that needs more stands alone; the help says what it needs. -/
  | bare (c : Command)
  /-- Switches are given, but none of the commands of `c`. -/
  | noCommand (c : Command)
  | unknownCommand (word : String)
  | noArguments
  | unknownArgument (arg : String)
  | noValue (s : Switch)
  /-- A value is attached to a switch that takes none. -/
  | needlessValue (s : Switch) (value : String)
  | repeated (s : Switch)
  | badFormat (value : String)
  deriving DecidableEq, Repr

namespace Refusal

/-- What is said first of a refusal; the whole help or version text if it was asked for. -/
def message : Refusal → String
  | help c | bare c => c.help
  | version => versionText
  | noCommand c =>
    "error: '" ++ c.path ++ "' requires a subcommand but one was not provided"
  | unknownCommand w => "error: unrecognized subcommand '" ++ w ++ "'"
  | noArguments => "error: the following required arguments were not provided:"
  | unknownArgument a => "error: unexpected argument '" ++ a ++ "' found"
  | noValue s => "error: a value is required for '" ++ s.shown ++ "' but none was supplied"
  | needlessValue s v =>
    "error: unexpected value '" ++ v ++ "' for '" ++ s.shown ++ "' found; no more were expected"
  | repeated s => "error: the argument '" ++ s.shown ++ "' cannot be used multiple times"
  | badFormat v =>
    "error: invalid value '" ++ v ++ "' for '" ++ Switch.format.shown ++ "': "
      ++ Document.Format.unknownMessage v

def exitCode : Refusal → Nat
  | help _ | version => 0
  | _ => 2

end Refusal

end CommandLine
end RouteScribe
