namespace PackScript

/-!
# Places in a source text

Offsets count bytes of the UTF-8 text, lines and columns count from one, and a column counts
characters since the last line feed. Lines and columns have 32 bits, so in a text of four gigabytes
they can start again from zero.
-/

/-- A count in the 32 bits of a line or column. -/
def wrap32 (n : Nat) : Nat :=
  n % 0x100000000

/-- A place between two characters of a source text. -/
structure Position where
  offset : Nat
  line : Nat
  column : Nat
deriving Repr, DecidableEq, Inhabited

namespace Position

/-- The start of every text. -/
def start : Position := ⟨0, 1, 1⟩

/-- The place after a character. -/
def after (p : Position) (c : Char) : Position :=
  if c = '\n' then ⟨p.offset + c.utf8Size, wrap32 (p.line + 1), 1⟩
  else ⟨p.offset + c.utf8Size, p.line, wrap32 (p.column + 1)⟩

/-- The place after a text. -/
def past (p : Position) (cs : List Char) : Position :=
  cs.foldl after p

end Position

/-- The extent of a token or node: a byte range, and the line and column of its start. -/
structure Span where
  start : Nat
  stop : Nat
  line : Nat
  column : Nat
deriving Repr, DecidableEq, Inhabited

namespace Span

/-- The empty extent at the start of the text. -/
def origin : Span := ⟨0, 0, 1, 1⟩

/-- From one place to an offset behind it. -/
def fromPosition (p : Position) (stop : Nat) : Span :=
  ⟨p.offset, stop, p.line, p.column⟩

end Span

end PackScript
