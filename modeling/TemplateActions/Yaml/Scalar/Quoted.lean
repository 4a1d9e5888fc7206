import TemplateActions.Text.Escape
import TemplateActions.Yaml.Character
import TemplateActions.Yaml.Failure

/-!
Quoted scalars. White space around a line break is dropped; the break itself reads as a space unless
further breaks follow, which are kept. Characters are read as code points, because a character may
be written as an escaped pair of surrogates.
-/
namespace TemplateActions.Yaml.Quoted

/-- White space that is read but not yet written, as a later line break may drop it. -/
inductive Pending where
  | blanks (text : List Char)
  | lines (first : Option Char) (more : List Char)

namespace Pending

def none : Pending := .blanks []

def text : Pending → List Char
  | .blanks text => text
  | .lines first more =>
    match first with
    | some '\n' => if more.isEmpty then [' '] else more
    | some c => c :: more
    | _ => more

def space (c : Char) : Pending → Pending
  | .blanks text => .blanks (text ++ [c])
  | pending => pending

def lineBreak (c : Char) : Pending → Pending
  | .blanks _ => .lines (some c) []
  | .lines first more => .lines first (more ++ [c])

def codes (pending : Pending) : List Nat := pending.text.map Char.toNat

end Pending

abbrev Codes := Except Failure (List Nat × List Char)

def before (codes : List Nat) : Codes → Codes
  | .ok (more, rest) => .ok (codes ++ more, rest)
  | .error e => .error e

/-- Reads up to the closing quote, which is written twice to stand for itself. -/
def single (pending : Pending) : List Char → Codes
  | [] => .error .malformed
  | '\'' :: '\'' :: rest => before (pending.codes ++ ['\''.toNat]) (single .none rest)
  | c :: rest =>
    if c == '\'' then .ok (pending.codes, rest)
    else if isSpace c then single (pending.space c) rest
    else if isBreak c then
      if atDocumentMarker rest then .error .malformed else single (pending.lineBreak c) rest
    else before (pending.codes ++ [c.toNat]) (single .none rest)

def escaped? : Char → Option Char
  | '0' => some '\x00'
  | 'a' => some '\x07'
  | 'b' => some '\x08'
  | 't' => some '\t'
  | '\t' => some '\t'
  | 'n' => some '\n'
  | 'v' => some '\x0b'
  | 'f' => some '\x0c'
  | 'r' => some '\r'
  | 'e' => some '\x1b'
  | ' ' => some ' '
  | '"' => some '"'
  | '/' => some '/'
  | '\\' => some '\\'
  | 'N' => some '\x85'
  | '_' => some '\xa0'
  | 'L' => some '\u2028'
  | 'P' => some '\u2029'
  | _ => none

def codePoint (digits : List Char) : Except Failure Nat :=
  match Escape.hex? 0 digits.length digits with
  | some (code, _) => if code < 0x110000 then .ok code else .error (.codePoint code)
  | none => .error .malformed

def beforeHex (pending : Pending) (digits : List Char) (next : Codes) : Codes :=
  match codePoint digits with
  | .ok code => before (pending.codes ++ [code]) next
  | .error e => .error e

/-- Reads up to the closing quote. An escaped line break joins the lines. -/
def double (pending : Pending) : List Char → Codes
  | [] => .error .malformed
  | '\\' :: 'x' :: a :: b :: rest => beforeHex pending [a, b] (double .none rest)
  | '\\' :: 'u' :: a :: b :: c :: d :: rest => beforeHex pending [a, b, c, d] (double .none rest)
  | '\\' :: 'U' :: a :: b :: c :: d :: e :: f :: g :: h :: rest =>
    beforeHex pending [a, b, c, d, e, f, g, h] (double .none rest)
  | '\\' :: e :: rest =>
    if isBreak e then
      if atDocumentMarker rest then .error .malformed
      else before pending.codes (double (.lines .none []) rest)
    else
      match escaped? e with
      | some c => before (pending.codes ++ [c.toNat]) (double .none rest)
      | none => .error .malformed
  | c :: rest =>
    if c == '"' then .ok (pending.codes, rest)
    else if c == '\\' then .error .malformed
    else if isSpace c then double (pending.space c) rest
    else if isBreak c then
      if atDocumentMarker rest then .error .malformed else double (pending.lineBreak c) rest
    else before (pending.codes ++ [c.toNat]) (double .none rest)

def read (quote : Char) (input : List Char) : Except Failure (List Char × List Char) :=
  match if quote == '"' then double .none input else single .none input with
  | .ok (codes, rest) => .ok (Escape.joinSurrogates codes, rest)
  | .error e => .error e

end TemplateActions.Yaml.Quoted
