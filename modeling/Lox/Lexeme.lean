import Lox.Text.Quoted

/-!
# Lexemes

The operators and names of a program are lexemes: tokens that a scanner cut from a source text,
bare texts put there by whoever built the program, or nothing at all.  An operator is chosen by
the kind of a token or by the text of any lexeme; a name counts by its text alone.
-/

namespace Lox

/-- A token: its kind, its text, and where it stands if that is known. -/
structure Token where
  kind : String
  text : String
  line? : Option Int
  column? : Option Int
  deriving DecidableEq

/-- What stands in the place of an operator or a name. -/
inductive Lexeme
  | absent
  /-- A text without kind or position. -/
  | bare (text : String)
  | token (t : Token)
  deriving DecidableEq

namespace Lexeme

/-- The text of a lexeme.  An absent one has a text too, so that it can be used as a name. -/
def text : Lexeme → String
  | absent => "None"
  | bare text => text
  | token t => t.text

@[simp] theorem text_bare (s : String) : (bare s).text = s := rfl
@[simp] theorem text_token (t : Token) : (token t).text = t.text := rfl

/-- Whether a lexeme is a token of one of the given kinds, or has one of the given texts.  A bare
text has no kind, and an absent lexeme has neither. -/
def isOneOf (kinds texts : List String) : Lexeme → Bool
  | absent => false
  | bare text => texts.contains text
  | token t => kinds.contains t.kind || texts.contains t.text

/-- Where a lexeme stands, in parentheses; nothing unless the line is known. -/
def position : Lexeme → String
  | token ⟨_, _, some line, some column⟩ =>
    " (line " ++ toString line ++ ", col " ++ toString column ++ ")"
  | token ⟨_, _, some line, none⟩ => " (line " ++ toString line ++ ")"
  | _ => ""

/-- A lexeme as the log shows it, with the kind and the text of a token in quotes. -/
def description : Lexeme → String
  | absent => "None"
  | bare text => Text.quoted text
  | token t => "Token(" ++ Text.quoted t.kind ++ ", " ++ Text.quoted t.text ++ ")"

end Lexeme
end Lox
