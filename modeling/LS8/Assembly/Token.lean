import LS8.Assembly.Error
import LS8.Text.Blank
import LS8.Text.Uppercase

/-!
# Tokens

A line up to its comment is cut into words at its blanks, and each of them into pieces: single
commas and colons, and the longest words between these. Each piece is one token. A word that begins
with a digit is a numeral or an error; every other word is a name, and names are in upper case from
here on.
-/
namespace LS8.Assembly

inductive Piece where
  | word (text : List Char)
  | comma | colon
  deriving DecidableEq, Repr

/-- The characters that a piece is made of. -/
def Piece.source : Piece → List Char
  | word text => text
  | comma => [',']
  | colon => [':']

/-- What can stand as an operand. -/
inductive Atom where
  | name (text : String)
  | number (value : Nat)
  deriving DecidableEq, Repr

inductive Token where
  | atom (a : Atom)
  | comma | colon
  deriving DecidableEq, Repr

def Atom.text : Atom → String
  | name text => text
  | number value => Numeral.decimal value

def Token.text : Token → String
  | atom a => a.text
  | comma => ","
  | colon => ":"

def isComment (c : Char) : Bool := c == ';' || c == '#'

def isSeparator (c : Char) : Bool := c == ',' || c == ':'

def Piece.ofMark? : Char → Option Piece
  | ',' => some .comma
  | ':' => some .colon
  | _ => none

/-- A word is cut at its first comma or colon: what stands in front of it, if anything does, then
the mark, then what the rest is cut into. -/
def cutWord (word : List Char) : List Piece :=
  if word = [] then []
  else
    let stop := word.findIdx isSeparator
    (if 0 < stop then [.word (word.take stop)] else []) ++
      (word[stop]? >>= Piece.ofMark?).toList ++ cutWord (word.drop (stop + 1))
termination_by word.length
decreasing_by
  rename_i hne
  have hpos := List.length_pos_iff.mpr hne
  rw [List.length_drop]
  omega

def cut (code : List Char) : List Piece := (Text.words code).flatMap cutWord

/-- The base and the digits of a word that begins with a digit. -/
def numeralParts? : List Char → Option (Nat × List Char)
  | '0' :: 'x' :: digits | '0' :: 'X' :: digits => some (16, digits)
  | '0' :: 'b' :: digits | '0' :: 'B' :: digits => some (2, digits)
  | word => if word.head?.any Char.isDigit then some (10, word) else none

/-- Numbers are read up to 64 bits, whatever they are used for. -/
def Atom.ofWord (word : List Char) : Except LineFault Atom :=
  match numeralParts? word with
  | none => .ok (.name (String.ofList (Text.uppercase word)))
  | some (base, digits) =>
    match Numeral.read? base 0xFFFFFFFFFFFFFFFF digits with
    | some value => .ok (.number value)
    | none => .error (.invalidNumber (String.ofList word))

def Token.ofPiece : Piece → Except LineFault Token
  | .word text => (Atom.ofWord text).map .atom
  | .comma => .ok .comma
  | .colon => .ok .colon

/-- The first word that is no token decides. -/
def tokenize (line : List Char) : Except LineFault (List Token) :=
  (cut (line.takeWhile (!isComment ·))).mapM Token.ofPiece

end LS8.Assembly
