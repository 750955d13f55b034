import Mathlib.Data.List.Basic
import SqueezeboxConnect.Words

/-!
# Words of a POSIX shell

A command line is split into tokens by a machine that reads one character after
the other: words with their quoted parts, operators, numbers in front of a
redirection, and ends of lines. Adjacent quoted parts of a word are one piece.

Double quotes, parameters other than `$name` and `$!`, and backslashes between
backquotes are not read; a line with one of them has no tokens.

`quote` puts a text between single quotes, with every single quote in it replaced
by `'\''`. Where a word can begin and end, it is one word that stands for the text.
-/

namespace ShellWords

open Words

inductive Piece where
  | plain (c : Char)
  | quoted (text : Text)
  | parameter (name : Text)
  /-- What a command between backquotes prints. -/
  | output (command : Text)
  deriving DecidableEq

abbrev Word := List Piece

inductive Operator where
  | andIf
  | orIf
  | dsemi
  | dless
  | dlessdash
  | dgreat
  | lessand
  | greatand
  | lessgreat
  | clobber
  | pipe
  | amp
  | semi
  | less
  | great
  | lparen
  | rparen
  deriving DecidableEq

def Operator.ofText (text : Text) : Option Operator :=
  [(['&', '&'], andIf), (['|', '|'], orIf), ([';', ';'], dsemi), (['<', '<'], dless),
    (['<', '<', '-'], dlessdash), (['>', '>'], dgreat), (['<', '&'], lessand),
    (['>', '&'], greatand), (['<', '>'], lessgreat), (['>', '|'], clobber), (['|'], pipe),
    (['&'], amp), ([';'], semi), (['<'], less), (['>'], great), (['('], lparen),
    ([')'], rparen)].lookup text

inductive Token where
  | word (word : Word)
  /-- The number of a file in front of a redirection. -/
  | io (number : Text)
  | op (operator : Operator)
  | newline
  deriving DecidableEq

section Lexing

inductive Mode where
  | between
  | word
  | single
  | escaped
  | dollar (name : Text)
  | backquoted (text : Text)
  | operator (text : Text)
  | comment
  | failed
  deriving DecidableEq

/-- The word that has been begun is there in every mode in which a word can be. -/
structure Lexer where
  mode : Mode
  word : Word
  deriving DecidableEq

def between : Lexer := ⟨.between, []⟩

def failed : Lexer := ⟨.failed, []⟩

def isBlank (c : Char) : Bool := c == ' ' || c == '\t'

def isOperator (c : Char) : Bool :=
  c == '&' || c == '|' || c == ';' || c == '<' || c == '>' || c == '(' || c == ')'

/-- A character that ends a word. -/
def delimits (c : Char) : Bool := isBlank c || c == '\n' || isOperator c

def isNameStart (c : Char) : Bool := c.isAlpha || c == '_'

/-- More quoted text at the end of a word. -/
def addQuoted (word : Word) (text : Text) : Word :=
  match word.getLast? with
  | some (.quoted front) => word.dropLast ++ [.quoted (front ++ text)]
  | _ => word ++ [.quoted text]

/-- A character that belongs to the word. -/
def inWord (word : Word) (c : Char) : Lexer :=
  if c = '\'' then ⟨.single, addQuoted word []⟩
  else if c = '\\' then ⟨.escaped, word⟩
  else if c = '"' then failed
  else if c = '$' then ⟨.dollar [], word⟩
  else if c = Char.ofNat 96 then ⟨.backquoted [], word⟩
  else ⟨.word, word ++ [.plain c]⟩

/-- A character behind a token. -/
def begin (c : Char) : Lexer × List Token :=
  if isBlank c then (between, [])
  else if c = '\n' then (between, [.newline])
  else if isOperator c then (⟨.operator [c], []⟩, [])
  else if c = '#' then (⟨.comment, []⟩, [])
  else (inWord [] c, [])

def isDigit : Piece → Bool
  | .plain c => c.isDigit
  | _ => false

def plainText (word : Word) : Text :=
  word.filterMap fun
    | .plain c => some c
    | _ => none

/-- The word, or a number in front of a redirection. -/
def tokenBefore (word : Word) (c : Char) : Token :=
  if (c = '<' ∨ c = '>') ∧ word.all isDigit then .io (plainText word) else .word word

/-- A character behind a part of a word that is not quoted. -/
def afterWord (word : Word) (c : Char) : Lexer × List Token :=
  if delimits c then ((begin c).1, tokenBefore word c :: (begin c).2) else (inWord word c, [])

def step (s : Lexer) (c : Char) : Lexer × List Token :=
  match s.mode with
  | .between => begin c
  | .word => afterWord s.word c
  | .single =>
    if c = '\'' then (⟨.word, s.word⟩, []) else (⟨.single, addQuoted s.word [c]⟩, [])
  | .escaped =>
    -- a line goes on behind a backslash at its end
    if c = '\n' then (⟨if s.word = [] then .between else .word, s.word⟩, [])
    else (⟨.word, addQuoted s.word [c]⟩, [])
  | .dollar name =>
    if isNameStart c || (name ≠ [] && c.isDigit) then (⟨.dollar (name ++ [c]), s.word⟩, [])
    else if name ≠ [] then afterWord (s.word ++ [.parameter name]) c
    else if c = '!' then (⟨.word, s.word ++ [.parameter [c]]⟩, [])
    else (failed, [])
  | .backquoted text =>
    if c = Char.ofNat 96 then (⟨.word, s.word ++ [.output text]⟩, [])
    else if c = '\\' then (failed, [])
    else (⟨.backquoted (text ++ [c]), s.word⟩, [])
  | .operator text =>
    if (Operator.ofText (text ++ [c])).isSome then (⟨.operator (text ++ [c]), []⟩, [])
    else match Operator.ofText text with
      | some op => ((begin c).1, .op op :: (begin c).2)
      | none => (failed, [])
  | .comment => if c = '\n' then (between, [.newline]) else (s, [])
  | .failed => (s, [])

def run : Lexer → Text → Lexer × List Token
  | s, [] => (s, [])
  | s, c :: rest => ((run (step s c).1 rest).1, (step s c).2 ++ (run (step s c).1 rest).2)

/-- The token at the end of the line. -/
def finish (s : Lexer) : Option (List Token) :=
  match s.mode with
  | .between | .comment => some []
  | .word => some [.word s.word]
  | .dollar name => if name = [] then none else some [.word (s.word ++ [.parameter name])]
  | .operator text => (Operator.ofText text).map fun op => [.op op]
  | .single | .escaped | .backquoted _ | .failed => none

def lex (text : Text) : Option (List Token) :=
  (finish (run between text).1).map fun last => (run between text).2 ++ last

end Lexing

section Runs

theorem run_append (s : Lexer) (front back : Text) :
    run s (front ++ back) =
      ((run (run s front).1 back).1, (run s front).2 ++ (run (run s front).1 back).2) := by
  induction front generalizing s with
  | nil => rfl
  | cons c front ih =>
    rw [List.cons_append, run, run, ih, List.append_assoc]

theorem run_delimited {c : Char} (delimiter : delimits c = true) (word : Word) (rest : Text) :
    run ⟨.word, word⟩ (c :: rest) =
      ((run between (c :: rest)).1, tokenBefore word c :: (run between (c :: rest)).2) := by
  have here : step ⟨.word, word⟩ c = ((begin c).1, tokenBefore word c :: (begin c).2) := by
    rw [step, afterWord, if_pos delimiter]
  have there : step between c = begin c := rfl
  rw [run, run, here, there, List.cons_append]

theorem run_operator {c : Char} {text : Text} {op : Operator}
    (known : Operator.ofText text = some op) (alone : Operator.ofText (text ++ [c]) = none)
    (rest : Text) : run ⟨.operator text, []⟩ (c :: rest) =
      ((run between (c :: rest)).1, .op op :: (run between (c :: rest)).2) := by
  have here : step ⟨.operator text, []⟩ c = ((begin c).1, .op op :: (begin c).2) := by
    simp [step, alone, known]
  have there : step between c = begin c := rfl
  rw [run, run, here, there, List.cons_append]

end Runs

section Quoting

/-- A text between single quotes. -/
def quote (text : Text) : Text :=
  '\'' :: text.flatMap (fun c => if c = '\'' then ['\'', '\\', '\'', '\''] else [c]) ++ ['\'']

theorem addQuoted_concat (before : Word) (front back : Text) :
    addQuoted (before ++ [.quoted front]) back = before ++ [.quoted (front ++ back)] := by
  rw [addQuoted, List.getLast?_concat, List.dropLast_concat]

theorem addQuoted_cases (word : Word) :
    (∃ before front, word = before ++ [.quoted front]) ∨
      ∀ text, addQuoted word text = word ++ [.quoted text] := by
  cases last : word.getLast? with
  | none => exact .inr fun text => by rw [addQuoted, last]
  | some piece =>
    cases piece with
    | quoted front =>
      obtain ⟨before, rfl⟩ := List.getLast?_eq_some_iff.mp last
      exact .inl ⟨before, front, rfl⟩
    | plain c => exact .inr fun text => by rw [addQuoted, last]
    | parameter name => exact .inr fun text => by rw [addQuoted, last]
    | output command => exact .inr fun text => by rw [addQuoted, last]

theorem addQuoted_addQuoted (word : Word) (front back : Text) :
    addQuoted (addQuoted word front) back = addQuoted word (front ++ back) := by
  rcases addQuoted_cases word with ⟨before, text, rfl⟩ | new
  · rw [addQuoted_concat, addQuoted_concat, addQuoted_concat, List.append_assoc]
  · rw [new, new, addQuoted_concat]

theorem run_quoted (word : Word) (front text : Text) :
    run ⟨.single, addQuoted word front⟩
        (text.flatMap fun c => if c = '\'' then ['\'', '\\', '\'', '\''] else [c]) =
      (⟨.single, addQuoted word (front ++ text)⟩, []) := by
  induction text generalizing front with
  | nil => rw [List.flatMap_nil, run, List.append_nil]
  | cons c text ih =>
    have here : run ⟨.single, addQuoted word front⟩
        (if c = '\'' then ['\'', '\\', '\'', '\''] else [c]) =
          (⟨.single, addQuoted word (front ++ [c])⟩, []) := by
      split
      · next quote =>
        -- out of the quotes, an escaped quote, and into the quotes again
        have steps : run ⟨.single, addQuoted word front⟩ ['\'', '\\', '\'', '\''] =
            (⟨.single, addQuoted (addQuoted (addQuoted word front) ['\'']) []⟩, []) := rfl
        rw [steps, addQuoted_addQuoted, addQuoted_addQuoted, List.append_nil, quote]
      · next other =>
        have one : step ⟨.single, addQuoted word front⟩ c =
            (⟨.single, addQuoted (addQuoted word front) [c]⟩, []) := if_neg other
        rw [run, run, one, addQuoted_addQuoted]
        rfl
    rw [List.flatMap_cons, run_append, here, ih, List.append_assoc]
    rfl

/-- Where a word can go on, a quoted text is a part of it. -/
theorem run_quote_word (word : Word) (text : Text) :
    run ⟨.word, word⟩ (quote text) = (⟨.word, addQuoted word text⟩, []) := by
  have opens : run ⟨.word, word⟩ ['\''] = (⟨.single, addQuoted word []⟩, []) := rfl
  have closes : ∀ w, run ⟨.single, w⟩ ['\''] = (⟨.word, w⟩, []) := fun _ => rfl
  have parts : quote text = ['\''] ++ (text.flatMap (fun c =>
      if c = '\'' then ['\'', '\\', '\'', '\''] else [c]) ++ ['\'']) := rfl
  rw [parts, run_append, opens, run_append, run_quoted, closes]
  rfl

/-- No operator has a quote in it. -/
theorem ofText_quote (text : Text) : Operator.ofText (text ++ ['\'']) = none := by
  rw [Operator.ofText, List.lookup_eq_none_iff]
  intro entry known
  have last : entry.1.getLast? ≠ some '\'' := by
    revert entry
    decide
  rw [bne_iff_ne]
  intro same
  rw [← same, List.getLast?_concat] at last
  exact last rfl

/-- The end of a token. -/
def Boundary (s : Lexer) : Prop :=
  s = between ∨ ∃ text op, s = ⟨.operator text, []⟩ ∧ Operator.ofText text = some op

theorem run_quote_boundary {s : Lexer} (boundary : Boundary s) (text : Text) :
    ∃ tokens, finish s = some tokens ∧ run s (quote text) = (⟨.word, [.quoted text]⟩, tokens) := by
  have opens : ∀ rest, run ⟨.word, []⟩ ('\'' :: rest) = run between ('\'' :: rest) := fun _ => rfl
  have whole : run between (quote text) = (⟨.word, [.quoted text]⟩, []) := by
    have word := run_quote_word [] text
    rw [quote, List.cons_append, opens] at word
    exact word
  rcases boundary with rfl | ⟨front, op, rfl, known⟩
  · exact ⟨[], rfl, whole⟩
  · refine ⟨[.op op], by simp [finish, known], ?_⟩
    rw [quote, List.cons_append] at whole ⊢
    rw [run_operator known (ofText_quote front), whole]

/-- A word with a quoted part ends at the next delimiter. -/
theorem lex_word {front back : Text} {word : Word} {text : Text}
    (written : (run between front).1 = ⟨.word, word⟩) (quoted : .quoted text ∈ word)
    (delimited : ∀ c ∈ back.head?, delimits c = true) :
    lex (front ++ back) =
      (lex back).map fun behind => (run between front).2 ++ .word word :: behind := by
  rw [lex, run_append, written]
  cases back with
  | nil => simp [run, finish, lex, between]
  | cons c rest =>
    have number : tokenBefore word c = .word word := by
      rw [tokenBefore, if_neg]
      rintro ⟨-, digits⟩
      have := List.all_eq_true.mp digits _ quoted
      cases this
    rw [run_delimited (delimited c rfl), number, lex, Option.map_map]
    congr 1
    funext later
    simp

/-- At the end of a token and in front of a blank, an operator or the end of the line, a quoted text
is exactly one word. -/
theorem lex_quote {front back : Text} (text : Text) (boundary : Boundary (run between front).1)
    (delimited : ∀ c ∈ back.head?, delimits c = true) :
    lex (front ++ (quote text ++ back)) = (lex front).bind fun before =>
      (lex back).map fun behind => before ++ .word [.quoted text] :: behind := by
  obtain ⟨tokens, last, quoted⟩ := run_quote_boundary boundary text
  have before : lex front = some ((run between front).2 ++ tokens) := by
    rw [lex, last, Option.map_some]
  have whole : run between (front ++ quote text) =
      (⟨.word, [.quoted text]⟩, (run between front).2 ++ tokens) := by
    rw [run_append, quoted]
  have split := lex_word (congrArg Prod.fst whole) List.mem_cons_self delimited
  rw [List.append_assoc, whole] at split
  rw [split, before, Option.bind_some]

end Quoting

end ShellWords
