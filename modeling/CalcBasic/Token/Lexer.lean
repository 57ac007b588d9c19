import CalcBasic.Span
import CalcBasic.Token.Rule

/-!
# Reading tokens

`Token.read` cuts a source text into tokens. Spaces, tabs and carriage returns between tokens are
skipped. At every other place the longest lexeme of any rule becomes the next token; reading stops
at the first place where none fits, or where a form is left unfinished.
-/

namespace CalcBasic

/-- The place where reading stopped, and the characters that fit no rule there. -/
structure Unreadable where
  slice : String
  span : Span
deriving DecidableEq, Repr

/-- The number of bytes of a text. -/
def byteLength (cs : List Char) : Nat := cs.foldl (fun n c => n + c.utf8Size) 0

/-- The longer of the best lexeme so far and the rule's own. -/
def Rule.better (cs : List Char) (best : Option (Rule × List Char)) (r : Rule) :
    Option (Rule × List Char) :=
  match r.lexeme? cs, best with
  | none, _ => best
  | some lexeme, none => some (r, lexeme)
  | some lexeme, some (s, longest) =>
    if longest.length < lexeme.length then some (r, lexeme) else some (s, longest)

/-- The longest lexeme at the front of the characters, with its rule. -/
def Rule.longest? (cs : List Char) : Option (Rule × List Char) :=
  Rule.all.foldl (Rule.better cs) none

/-- The form that is begun and left unfinished at the front of the characters. -/
def Rule.unfinishedForm? (cs : List Char) : Option (List Char) :=
  Rule.all.findSome? (Rule.unfinished? cs)

/-- The next token and its lexeme, or the characters that cannot be read. -/
def Token.next (c : Char) (cs : List Char) : Except (List Char) (Token × List Char) :=
  match Rule.unfinishedForm? (c :: cs) with
  | some slice => .error slice
  | none =>
    match Rule.longest? (c :: cs) with
    | some (r, lexeme) => .ok (r.token lexeme, lexeme)
    | none => .error [c]

/-- A character that may stand between tokens. -/
def isSkipped (c : Char) : Bool := c == ' ' || c == '\t' || c == '\r'

/-- Reads tokens from the characters at the byte offset `offset`. The first `skip` of them belong to
the token read last; `tokens` holds the tokens so far, the last one in front. -/
def Token.readFrom (skip offset : Nat) (tokens : List (Spanned Token)) :
    List Char → Except Unreadable (List (Spanned Token))
  | [] => .ok tokens.reverse
  | c :: cs =>
    match skip with
    | n + 1 => Token.readFrom n (offset + c.utf8Size) tokens cs
    | 0 =>
      if isSkipped c then Token.readFrom 0 (offset + c.utf8Size) tokens cs
      else
        match Token.next c cs with
        | .error slice => .error ⟨String.ofList slice, ⟨offset, offset + byteLength slice⟩⟩
        | .ok (token, lexeme) =>
          let span : Span := ⟨offset, offset + byteLength lexeme⟩
          Token.readFrom (lexeme.length - 1) (offset + c.utf8Size) (⟨token, span⟩ :: tokens) cs

/-- The tokens of a source text, with their byte ranges. -/
def Token.read (source : String) : Except Unreadable (List (Spanned Token)) :=
  Token.readFrom 0 0 [] source.toList

end CalcBasic
