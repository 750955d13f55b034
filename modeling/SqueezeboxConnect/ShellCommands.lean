import SqueezeboxConnect.ShellWords

/-!
# Commands of a POSIX shell

The tokens of a line are put together to commands: simple commands with their
arguments and redirections, pipelines, lists, subshells and `for` loops. A word
is an argument as it is written if nothing in it is expanded, or one parameter or
command substitution.

Other reserved words, assignments in front of a command, here-documents and file
name patterns are not read; a line with one of them is no command. So a line that
is read consists of the commands that are found and of nothing else.
-/

namespace ShellCommands

open ShellWords Words

inductive Arg where
  | text (text : Text)
  | parameter (name : Text)
  | output (command : Text)
  deriving DecidableEq

structure Redirection where
  number : Option Text
  operator : Operator
  target : Arg
  deriving DecidableEq

inductive Command where
  | simple (args : List Arg) (redirections : List Redirection)
  | subshell (body : Command) (redirections : List Redirection)
  | forIn (name : Text) (args : List Arg) (body : Command)
  | pipe (left right : Command)
  | andIf (left right : Command)
  | orIf (left right : Command)
  | sequence (left right : Command)
  | background (command : Command)
  deriving DecidableEq

section Words

/-- A character that the shell expands where it is not quoted. -/
def isPattern (c : Char) : Bool := c == '*' || c == '?' || c == '[' || c == '~'

/-- The text of a word in which nothing is expanded. -/
def literal : Word → Option Text
  | [] => some []
  | [.quoted text] => some text
  | .quoted text :: rest => (literal rest).map fun later => text ++ later
  | .plain c :: rest => if isPattern c then none else (literal rest).map fun later => c :: later
  | .parameter _ :: _ => none
  | .output _ :: _ => none

def arg : Word → Option Arg
  | [.parameter name] => some (.parameter name)
  | [.output command] => some (.output command)
  | word => (literal word).map .text

/-- A word in which nothing is quoted. -/
def bare (word : Word) : Option Text :=
  word.mapM fun
    | .plain c => some c
    | _ => none

def reserved : List Text :=
  ["!".toList, "\x7b".toList, "\x7d".toList, "case".toList, "do".toList, "done".toList,
    "elif".toList, "else".toList, "esac".toList, "fi".toList, "for".toList, "if".toList,
    "in".toList, "then".toList, "until".toList, "while".toList]

def isReserved (word : Word) : Bool :=
  match bare word with
  | some text => reserved.contains text
  | none => false

/-- A name and an equals sign, not quoted. -/
def isAssignment (word : Word) : Bool :=
  word.any fun piece => piece == .plain '='

end Words

section Parsing

def isRedirection : Operator → Bool
  | .less | .great | .dgreat | .lessgreat | .lessand | .greatand | .clobber => true
  | _ => false

/-- Arguments and redirections, as far as they go. -/
def readSimple : List Token → Option (List Arg × List Redirection × List Token)
  | .word word :: rest =>
    match arg word, readSimple rest with
    | some first, some (args, redirections, left) => some (first :: args, redirections, left)
    | _, _ => none
  | .io number :: .op op :: .word word :: rest =>
    match isRedirection op, arg word, readSimple rest with
    | true, some target, some (args, redirections, left) =>
      some (args, ⟨some number, op, target⟩ :: redirections, left)
    | _, _, _ => none
  | .op op :: .word word :: rest =>
    if isRedirection op then
      match arg word, readSimple rest with
      | some target, some (args, redirections, left) =>
        some (args, ⟨none, op, target⟩ :: redirections, left)
      | _, _ => none
    else some ([], [], .op op :: .word word :: rest)
  | tokens => some ([], [], tokens)

/-- Where a list of commands can end. -/
def endsList : List Token → Bool
  | [] => true
  | .op .rparen :: _ => true
  | .word word :: _ => isReserved word && bare word != some "for".toList
  | _ => false

/-- A simple command; it does not begin with a reserved word or an assignment. -/
def parseSimple (tokens : List Token) : Option (Command × List Token) :=
  match tokens with
  | .word word :: _ =>
    if isReserved word || isAssignment word then none
    else (readSimple tokens).map fun (args, redirections, left) => (.simple args redirections, left)
  | _ => none

/-- A keyword in front of the tokens. -/
def keyword (name : String) : List Token → Option (List Token)
  | .word word :: rest => if bare word = some name.toList then some rest else none
  | _ => none

/-- The name and the words of a loop, up to its body. -/
def readLoop : List Token → Option (Text × List Arg × List Token)
  | .word name :: tokens =>
    match bare name, (keyword "in" tokens).bind readSimple with
    | some name, some (args, [], .op .semi :: left) =>
      (keyword "do" left).map fun body => (name, args, body)
    | _, _ => none
  | _ => none

mutual

def parseList : Nat → List Token → Option (Command × List Token)
  | 0, _ => none
  | fuel + 1, tokens =>
    match parseAndOr fuel tokens with
    | some (first, .op .semi :: rest) =>
      if endsList rest then some (first, rest)
      else (parseList fuel rest).map fun (second, left) => (.sequence first second, left)
    | some (first, .newline :: rest) =>
      if endsList rest then some (first, rest)
      else (parseList fuel rest).map fun (second, left) => (.sequence first second, left)
    | some (first, .op .amp :: rest) =>
      if endsList rest then some (.background first, rest)
      else (parseList fuel rest).map fun (second, left) =>
        (.sequence (.background first) second, left)
    | other => other

def parseAndOr : Nat → List Token → Option (Command × List Token)
  | 0, _ => none
  | fuel + 1, tokens =>
    match parsePipeline fuel tokens with
    | some (first, rest) => parseAndOrRest fuel first rest
    | none => none

def parseAndOrRest : Nat → Command → List Token → Option (Command × List Token)
  | 0, _, _ => none
  | fuel + 1, first, tokens =>
    match tokens with
    | .op .andIf :: rest =>
      match parsePipeline fuel rest with
      | some (second, left) => parseAndOrRest fuel (.andIf first second) left
      | none => none
    | .op .orIf :: rest =>
      match parsePipeline fuel rest with
      | some (second, left) => parseAndOrRest fuel (.orIf first second) left
      | none => none
    | _ => some (first, tokens)

def parsePipeline : Nat → List Token → Option (Command × List Token)
  | 0, _ => none
  | fuel + 1, tokens =>
    match parseCommand fuel tokens with
    | some (first, .op .pipe :: rest) =>
      (parsePipeline fuel rest).map fun (second, left) => (.pipe first second, left)
    | other => other

def parseCommand : Nat → List Token → Option (Command × List Token)
  | 0, _ => none
  | fuel + 1, tokens =>
    match tokens with
    | .op .lparen :: rest =>
      match parseList fuel rest with
      | some (body, .op .rparen :: rest) =>
        match readSimple rest with
        | some ([], redirections, left) => some (.subshell body redirections, left)
        | _ => none
      | _ => none
    | _ =>
      match keyword "for" tokens with
      | some rest =>
        match readLoop rest with
        | some (name, args, rest) =>
          match parseList fuel rest with
          | some (body, rest) =>
            (keyword "done" rest).map fun left => (.forIn name args body, left)
          | none => none
        | none => none
      | none => parseSimple tokens

end

/-- The command that a whole line is. -/
def parse (tokens : List Token) : Option Command :=
  match parseList (6 * tokens.length + 6) tokens with
  | some (command, []) => some command
  | _ => none

/-- What the shell executes for a line. -/
def readLine (line : Text) : Option Command := (lex line).bind parse

end Parsing

end ShellCommands
